import Gpunetio.Host.Export
import Gpunetio.Host.Memory
import Gpunetio.Host.Uar

/-!
# What an exported QP has acquired

Exporting a QP takes its wrapper and `qp_cpu` from the heap, and either exports the UAR or allocates
the doorbell word of the CPU proxy; a device copy comes from `doca_gpu_verbs_get_qp_dev` or is an
element of the array of `doca_gpu_verbs_export_multi_qps_dev`. What is released later is decided
from the mode, the handler and the pointers of the QP.

* `GpuVerbsQp`, `Account`, `ExportSys`: an exported QP, what it has acquired, and the system with
  its heap, its `mtable` and its registry of UARs;
* `ExportSys.exportQp`, `ExportSys.getQpDev`, `ExportSys.exportMultiQpsDev`,
  `ExportSys.unexportMultiQpsDev`, `ExportSys.unexportQp`: the functions, for any outcome of the
  calls they make;
* `ExportSys.step`, `ExportSys.Legal`: a history of calls, with every multi-export un-exported
  before its QPs are;
* `ExportSys.Balanced`, `ExportSys.PointsOk`, `ExportSys.Right`: what every call should keep;
* `ExportSys.Meets`: when a call keeps it.
-/

namespace Gpunetio

open Custody Trace

/-- An address, and the device address of the allocation it was derived from. -/
structure MemPtr where
  alloc : ℕ
  addr : ℕ
deriving DecidableEq, Repr

/-- The host address of device memory, null if it has none. -/
def hostPtr (gpu cpu : ℕ) : Option MemPtr := if cpu = 0 then none else some ⟨gpu, cpu⟩

/-- `doca_gpu_verbs_qp`, with `nic_handler` and `sq_db` of its `qp_cpu`. -/
structure GpuVerbsQp where
  sendDbrModeExt : DbrModeExt
  cpuDb : Option MemPtr
  nicHandler : NicHandler
  sqDb : ℕ
  qpGpu : Option MemPtr
  qpGpuH : Option MemPtr
deriving DecidableEq, Repr

/-- `cpu_db` is `sq_wqe_pi` of the device copy. -/
def GpuVerbsQp.Assisted (e : GpuVerbsQp) : Prop :=
  e.sendDbrModeExt = .noDbrSwEmulated ∧ e.nicHandler ≠ .cpuProxy

instance (e : GpuVerbsQp) : Decidable e.Assisted := by
  unfold GpuVerbsQp.Assisted
  infer_instance

/-- A `calloc` block: the wrapper of an exported QP, or its `qp_cpu`. -/
inductive HeapBlock
  | gverbs (w : ℕ)
  | qpCpu (w : ℕ)
deriving DecidableEq, Repr

/-- What an exported QP has acquired besides its heap blocks: the doorbell word, by its device
address, the UAR export, by the host address and the pointer returned, and device copies. -/
structure Account where
  word : Option ℕ
  uar : Option (ℕ × ℕ)
  copies : List ℕ
deriving DecidableEq, Repr

/-- The allocations of an account. -/
def Account.allocs (a : Account) : List ℕ := a.copies ++ a.word.toList

/-- The arguments of an export, and the outcomes of its calls. `sendDbrMode` is what the query
finds, unless it or a call before it fails; `unregister` is for the un-export of a UAR after a
failure. -/
structure ExportCall where
  nullArg : Bool
  nicHandler : NicHandler
  sendDbrModeExt : DbrModeExt
  calloc : Bool
  callocQpCpu : Bool
  sendDbrMode : Option SendDbrMode
  uarAddr : Option ℕ
  uar : ExportCuda
  word : AllocCuda
  cqDbrAddr : Bool
  unregister : Bool
deriving DecidableEq, Repr

/-- The checks before anything is allocated. -/
def ExportCall.refused (gdrcopy : Bool) (a : ExportCall) : Bool :=
  a.nullArg || (a.nicHandler = .gpuSmNoDbr && a.sendDbrModeExt = .validDbr) ||
    (a.sendDbrModeExt = .noDbrSwEmulated && !gdrcopy)

/-- `send_dbr_mode_ext` does not fit the mode of the QP. -/
def ExportCall.mismatch (a : ExportCall) (m : SendDbrMode) : Bool :=
  (a.sendDbrModeExt = .validDbr && m ≠ .dbrValid) || (a.sendDbrModeExt = .noDbrHw && m ≠ .noDbrExt)

/-- The mode of the QP and the address of its UAR, unless something fails before it is used. -/
def ExportCall.found (a : ExportCall) : Option (SendDbrMode × ℕ) :=
  match a.sendDbrMode with
  | none => none
  | some m => if a.mismatch m then none else a.uarAddr.map fun sqDb => (m, sqDb)

/-- The handler chosen without a CPU proxy. -/
def ExportCall.chosen (a : ExportCall) (m : SendDbrMode) : NicHandler :=
  if a.nicHandler = .auto then
    if m = .noDbrExt ∨ a.sendDbrModeExt = .noDbrSwEmulated then .gpuSmNoDbr else .gpuSmDb
  else a.nicHandler

/-- `sizeof(struct doca_gpu_dev_verbs_qp)`. -/
def devQpSize : ℕ := 296

/-- The offset of `sq_wqe_pi` in it. -/
def sqWqePiOffset : ℕ := 16

/-- The type of memory for device copies. -/
def copyType (needCpuMapping : Bool) : MemType := if needCpuMapping then .gpuCpu else .gpu

/-- The doorbell word of the CPU proxy. -/
def wordArgs (pageSize : ℕ) : AllocArgs := ⟨false, false, false, 8, pageSize, .cpuGpu⟩

/-- A device copy of one QP. -/
def copyArgs (pageSize : ℕ) (ext : DbrModeExt) : AllocArgs :=
  ⟨false, false, false, devQpSize, pageSize, copyType (ext = .noDbrSwEmulated)⟩

/-- An array of device copies. -/
def arrayArgs (n : ℕ) (needCpuMapping : Bool) : AllocArgs :=
  ⟨false, false, false, devQpSize * n, gpuPageSize, copyType needCpuMapping⟩

/-- The device addresses of the allocations that have not been freed. -/
def MemSys.keys (s : MemSys) : List ℕ := s.allocs.map Prod.fst

/-- The heap, the memory and the UARs; the exported QPs, by the number of their wrapper, the number
of the next one, the list of those not yet un-exported and what each has acquired; and the
multi-exports not yet un-exported. -/
structure ExportSys where
  heap : Store HeapBlock
  mem : MemSys
  uar : UarSys
  qp : ℕ → Option GpuVerbsQp
  next : ℕ
  live : List ℕ
  account : ℕ → Account
  arrays : List (ℕ × List ℕ)

namespace ExportSys

variable (gdrcopy : Bool) (pageSize : ℕ)

/-! ## The functions -/

/-- `doca_gpu_mem_alloc`: the addresses if it succeeds, else those it has written nevertheless. -/
def memAlloc (a : AllocArgs) (cuda : AllocCuda) (s : ExportSys) :
    Option (ℕ × ℕ) ⊕ (ℕ × ℕ) :=
  match Gpunetio.memAlloc gdrcopy pageSize a cuda s.mem.mem with
  | (.success, some p, _) => .inr p
  | (_, o, _) => .inl o

/-- The system after `doca_gpu_mem_alloc`. -/
def allocated (a : AllocArgs) (cuda : AllocCuda) (s : ExportSys) : ExportSys :=
  { s with mem := s.mem.step gdrcopy pageSize (.memAlloc a cuda) }

/-- `doca_gpu_mem_free`. -/
def freed (p : ℕ) (cuda : FreeCuda) (s : ExportSys) : ExportSys :=
  { s with mem := s.mem.step gdrcopy pageSize (.memFree false p cuda) }

/-- `doca_gpu_verbs_unexport_uar`. -/
def unexportedUar (p : ℕ) (unregister : Bool) (s : ExportSys) : ExportSys :=
  { s with uar := s.uar.step (.unexportUar p unregister) }

/-- An export fails: the heap blocks are freed. -/
def exportFails (w : ℕ) (s : ExportSys) : ExportSys :=
  { s with heap := (s.heap.release (.qpCpu w) true).release (.gverbs w) true }

/-- An export succeeds. -/
def exported (w : ℕ) (e : GpuVerbsQp) (acc : Account) (s : ExportSys) : ExportSys :=
  { s with
    qp := Function.update s.qp w (some e)
    live := w :: s.live
    account := Function.update s.account w acc }

/-- An export with the CPU proxy; the word's host address is written last. -/
def exportProxy (w : ℕ) (a : ExportCall) (s : ExportSys) : ExportSys :=
  let s' := s.allocated gdrcopy pageSize (wordArgs pageSize) a.word
  match s.memAlloc gdrcopy pageSize (wordArgs pageSize) a.word with
  | .inl _ => s'.exportFails w
  | .inr (gpu, cpu) =>
    if a.cqDbrAddr = false then s'.exportFails w
    else
      s'.exported w ⟨a.sendDbrModeExt, some ⟨gpu, cpu⟩, .cpuProxy, cpu, none, none⟩
        ⟨some gpu, none, []⟩

/-- An export from where the UAR is known. -/
def exportDb (w : ℕ) (m : SendDbrMode) (sqDb : ℕ) (a : ExportCall) (s : ExportSys) : ExportSys :=
  if a.nicHandler = .cpuProxy then s.exportProxy gdrcopy pageSize w a
  else
    let s' := { s with uar := s.uar.step (.exportUar sqDb false a.uar) }
    match (s.uar.uar.exportUar sqDb false a.uar).2.1 with
    | none =>
      if a.nicHandler = .auto then s'.exportProxy gdrcopy pageSize w a else s'.exportFails w
    | some p =>
      if a.cqDbrAddr = false then
        (if p ≠ 0 then s'.unexportedUar p a.unregister else s').exportFails w
      else
        s'.exported w ⟨a.sendDbrModeExt, none, a.chosen m, p, none, none⟩
          ⟨none, some (sqDb, p), []⟩

/-- **`doca_gpu_verbs_export_qp`**. -/
def exportQp (a : ExportCall) (s : ExportSys) : ExportSys :=
  if a.refused gdrcopy || !a.calloc then s
  else
    let w := s.next
    let s := { s with heap := s.heap.acquire (.gverbs w), next := w + 1 }
    if a.callocQpCpu = false then { s with heap := s.heap.release (.gverbs w) true }
    else
      let s := { s with heap := s.heap.acquire (.qpCpu w) }
      match a.found with
      | none => s.exportFails w
      | some (m, sqDb) => s.exportDb gdrcopy pageSize w m sqDb a

/-- **`doca_gpu_verbs_get_qp_dev`**; `memcpy` is the outcome of `cudaMemcpy`. -/
def getQpDev (w : ℕ) (cuda : AllocCuda) (memcpy : Bool) (free : FreeCuda) (s : ExportSys) :
    ExportSys :=
  match s.qp w with
  | none => s
  | some e =>
    if e.qpGpu ≠ none then s
    else
      let args := copyArgs pageSize e.sendDbrModeExt
      let s' := s.allocated gdrcopy pageSize args cuda
      match s.memAlloc gdrcopy pageSize args cuda with
      | .inl none => s'
      | .inl (some (gpu, cpu)) =>
        { s' with
          qp := Function.update s.qp w
            (some { e with qpGpu := some ⟨gpu, gpu⟩, qpGpuH := hostPtr gpu cpu }) }
      | .inr (gpu, cpu) =>
        if memcpy = false then
          let s' := s'.freed gdrcopy pageSize gpu free
          { s' with
            qp := Function.update s.qp w (some { e with qpGpu := none, qpGpuH := none }) }
        else
          { s' with
            qp := Function.update s.qp w (some { e with
              qpGpu := some ⟨gpu, gpu⟩
              qpGpuH := hostPtr gpu cpu
              cpuDb := if e.Assisted then some ⟨gpu, cpu + sqWqePiOffset⟩ else e.cpuDb })
            account := Function.update s.account w
              { s.account w with copies := gpu :: (s.account w).copies } }

/-- The loop body of `doca_gpu_verbs_export_multi_qps_dev`. -/
def place (gpu cpu i : ℕ) (e : GpuVerbsQp) : GpuVerbsQp :=
  if e.Assisted then
    { e with
      qpGpu := some ⟨gpu, gpu + devQpSize * i⟩
      qpGpuH := some ⟨gpu, cpu + devQpSize * i⟩
      cpuDb := some ⟨gpu, cpu + devQpSize * i + sqWqePiOffset⟩ }
  else { e with qpGpu := some ⟨gpu, gpu + devQpSize * i⟩ }

/-- The loop of `doca_gpu_verbs_export_multi_qps_dev`. -/
def placeAll (gpu cpu : ℕ) (qps : List ℕ) (qp : ℕ → Option GpuVerbsQp) : ℕ → Option GpuVerbsQp :=
  Loop.each Prod.fst (fun x d => d.map (place gpu cpu x.2)) qps.zipIdx qp

/-- `need_cpu_mapping`. -/
def needCpuMapping (qps : List ℕ) (s : ExportSys) : Bool :=
  qps.any fun w => (s.qp w).any fun e => e.sendDbrModeExt = .noDbrSwEmulated

/-- **`doca_gpu_verbs_export_multi_qps_dev`**; `calloc` and `memcpy` are the outcomes of the calls
after the allocation. A `calloc` that fails ends the call without an error. -/
def exportMultiQpsDev (qps : List ℕ) (cuda : AllocCuda) (calloc memcpy : Bool) (free : FreeCuda)
    (s : ExportSys) : ExportSys :=
  if qps = [] then s
  else
    let args := arrayArgs qps.length (s.needCpuMapping qps)
    let s' := s.allocated gdrcopy pageSize args cuda
    match s.memAlloc gdrcopy pageSize args cuda with
    | .inl none => s'
    | .inl (some (gpu, _)) => s'.freed gdrcopy pageSize gpu free
    | .inr (gpu, cpu) =>
      if calloc = false then s'
      else
        let s' := { s' with qp := placeAll gpu cpu qps s.qp }
        if memcpy = false then s'.freed gdrcopy pageSize gpu free
        else { s' with arrays := (gpu, qps) :: s.arrays }

/-- **`doca_gpu_verbs_unexport_multi_qps_dev`**. -/
def unexportMultiQpsDev (qps : List ℕ) (qpGpus : ℕ) (free : FreeCuda) (s : ExportSys) :
    ExportSys :=
  if qps = [] ∨ qpGpus = 0 then s
  else
    { s.freed gdrcopy pageSize qpGpus free with
      qp := fun w =>
        if w ∈ qps then (s.qp w).map fun e => { e with qpGpu := none, qpGpuH := none } else s.qp w
      arrays := s.arrays.erase (qpGpus, qps) }

/-- The part of an un-export before the device copy: the word or the UAR, and `qp_cpu`. -/
def unexportDb (w : ℕ) (e : GpuVerbsQp) (word : FreeCuda) (unregister : Bool) (s : ExportSys) :
    ExportSys :=
  let s : ExportSys := match e.cpuDb with
    | none => s
    | some p =>
      if e.sendDbrModeExt ≠ .noDbrSwEmulated ∨ e.nicHandler = .cpuProxy then
        s.freed gdrcopy pageSize p.addr word
      else s
  let s := if e.nicHandler ≠ .cpuProxy then s.unexportedUar e.sqDb unregister else s
  { s with heap := s.heap.release (.qpCpu w) true }

/-- The rest of it: the device copy, and the wrapper. -/
def unexportCopy (w : ℕ) (qpGpu : Option MemPtr) (copy : FreeCuda) (s : ExportSys) : ExportSys :=
  let s : ExportSys := match qpGpu with
    | none => s
    | some p => s.freed gdrcopy pageSize p.addr copy
  { s with
    heap := s.heap.release (.gverbs w) true
    qp := Function.update s.qp w none
    live := s.live.erase w }

/-- **`doca_gpu_verbs_unexport_qp`**. -/
def unexportQp (w : ℕ) (word copy : FreeCuda) (unregister : Bool) (s : ExportSys) : ExportSys :=
  match s.qp w with
  | none => s
  | some e =>
    (s.unexportDb gdrcopy pageSize w e word unregister).unexportCopy gdrcopy pageSize w e.qpGpu copy

end ExportSys

/-! ## Histories -/

/-- A call. -/
inductive ExportEvent
  | exportQp (a : ExportCall)
  | getQpDev (w : ℕ) (cuda : AllocCuda) (memcpy : Bool) (free : FreeCuda)
  | exportMultiQpsDev (qps : List ℕ) (cuda : AllocCuda) (calloc memcpy : Bool) (free : FreeCuda)
  | unexportMultiQpsDev (qps : List ℕ) (qpGpus : ℕ) (free : FreeCuda)
  | unexportQp (w : ℕ) (word copy : FreeCuda) (unregister : Bool)
deriving DecidableEq, Repr

namespace ExportSys

variable (gdrcopy : Bool) (pageSize : ℕ)

/-- **One call.** -/
def step (s : ExportSys) : ExportEvent → ExportSys
  | .exportQp a => s.exportQp gdrcopy pageSize a
  | .getQpDev w cuda memcpy free => s.getQpDev gdrcopy pageSize w cuda memcpy free
  | .exportMultiQpsDev qps cuda calloc memcpy free =>
    s.exportMultiQpsDev gdrcopy pageSize qps cuda calloc memcpy free
  | .unexportMultiQpsDev qps qpGpus free => s.unexportMultiQpsDev gdrcopy pageSize qps qpGpus free
  | .unexportQp w word copy unregister => s.unexportQp gdrcopy pageSize w word copy unregister

/-- Nothing has been exported. -/
def empty : ExportSys :=
  ⟨Store.empty, MemSys.empty, UarSys.empty, fun _ => none, 0, [], fun _ => ⟨none, none, []⟩, []⟩

/-- A call names QPs that are exported, a multi-export is un-exported once and with its QPs, and
before any of these is. -/
def Legal (s : ExportSys) : ExportEvent → Prop
  | .exportQp _ => True
  | .getQpDev w .. => w ∈ s.live
  | .exportMultiQpsDev qps .. => ∀ w ∈ qps, w ∈ s.live
  | .unexportMultiQpsDev qps qpGpus _ => (qpGpus, qps) ∈ s.arrays
  | .unexportQp w .. => w ∈ s.live ∧ ∀ x ∈ s.arrays, w ∉ x.2

instance (s : ExportSys) : DecidablePred s.Legal
  | .exportQp _ => inferInstanceAs (Decidable True)
  | .getQpDev w _ _ _ => inferInstanceAs (Decidable (w ∈ s.live))
  | .exportMultiQpsDev qps _ _ _ _ => inferInstanceAs (Decidable (∀ w ∈ qps, w ∈ s.live))
  | .unexportMultiQpsDev qps qpGpus _ => inferInstanceAs (Decidable ((qpGpus, qps) ∈ s.arrays))
  | .unexportQp w _ _ _ =>
    inferInstanceAs (Decidable (w ∈ s.live ∧ ∀ x ∈ s.arrays, w ∉ x.2))

/-- The heap blocks of an exported QP. -/
def blocks (w : ℕ) : List HeapBlock := [.qpCpu w, .gverbs w]

/-- Exactly what the exported QPs have acquired is held, and the arrays of the multi-exports; and
nothing has been released that was not held. -/
structure Balanced (s : ExportSys) : Prop where
  heap : s.heap.Holds (s.live.flatMap blocks)
  uar : s.uar.exports.Perm (s.live.flatMap fun w => (s.account w).uar.toList)
  tallies : s.uar.Tallies
  mem : s.mem.Balanced
  keys : s.mem.keys.Perm
    ((s.live.flatMap fun w => (s.account w).allocs) ++ s.arrays.map Prod.fst)

/-- The QP has acquired the allocation, or is in a multi-export that has. -/
def Belongs (s : ExportSys) (w k : ℕ) : Prop :=
  k ∈ (s.account w).allocs ∨ ∃ x ∈ s.arrays, x.1 = k ∧ w ∈ x.2

/-- The device copy and the word an exported QP points to have not been released. -/
def PointsOk (s : ExportSys) : Prop :=
  ∀ w ∈ s.live, ∀ e, s.qp w = some e → ∀ p, e.cpuDb = some p ∨ e.qpGpu = some p →
    p.alloc ∈ s.mem.keys ∧ s.Belongs w p.alloc

/-- What a call should keep. -/
def Right (s : ExportSys) (event : ExportEvent) : Prop :=
  (s.step gdrcopy pageSize event).Balanced ∧ (s.step gdrcopy pageSize event).PointsOk

/-! ## When a call keeps the balance -/

/-- When an export of a UAR does: a first export that fails is undone, and none counts beyond 32
bits. -/
def ExportUarMeets (u : UarSys) (sqDb : ℕ) (cuda : ExportCuda) : Prop :=
  sqDb ≠ 0 → (u.live sqDb = 0 → cuda.register = true) →
    if cuda.map = none then u.live sqDb = 0 → cuda.unregister = true else u.live sqDb + 1 < 2 ^ 32

/-- When an un-export of a UAR does: the pointer is the host address, and the last export is
unregistered. -/
def UnexportUarMeets (u : UarSys) (x : ℕ × ℕ) (unregister : Bool) : Prop :=
  x.2 = x.1 ∧ (u.live x.1 = 1 → unregister = true)

/-- The CPU proxy is set up, and nothing fails after its word has been allocated. -/
def ProxyMeets (a : ExportCall) (s : ExportSys) : Prop :=
  s.mem.Meets gdrcopy pageSize (.memAlloc (wordArgs pageSize) a.word) ∧
    ∀ p, s.memAlloc gdrcopy pageSize (wordArgs pageSize) a.word = .inr p → a.cqDbrAddr = true

/-- When an export does. -/
def ExportMeets (a : ExportCall) (s : ExportSys) : Prop :=
  a.refused gdrcopy = false → a.calloc = true → a.callocQpCpu = true →
    ∀ m sqDb, a.found = some (m, sqDb) →
      if a.nicHandler = .cpuProxy then s.ProxyMeets gdrcopy pageSize a
      else
        ExportUarMeets s.uar sqDb a.uar ∧
          match (s.uar.uar.exportUar sqDb false a.uar).2.1 with
          | none => a.nicHandler = .auto → s.ProxyMeets gdrcopy pageSize a
          | some p => a.cqDbrAddr = false →
            UnexportUarMeets (s.uar.step (.exportUar sqDb false a.uar)) (sqDb, p) a.unregister

/-- When a call keeps the balance. -/
def Meets (s : ExportSys) : ExportEvent → Prop
  | .exportQp a => s.ExportMeets gdrcopy pageSize a
  | .getQpDev w cuda memcpy free => ∀ e, s.qp w = some e → e.qpGpu = none →
    let args := copyArgs pageSize e.sendDbrModeExt
    s.mem.Meets gdrcopy pageSize (.memAlloc args cuda) ∧
      (memcpy = false → ∀ p, s.memAlloc gdrcopy pageSize args cuda = .inr p →
        (s.mem.step gdrcopy pageSize (.memAlloc args cuda)).Meets gdrcopy pageSize
          (.memFree false p.1 free))
  | .exportMultiQpsDev qps cuda calloc memcpy _ => qps ≠ [] →
    let args := arrayArgs qps.length (s.needCpuMapping qps)
    s.mem.Meets gdrcopy pageSize (.memAlloc args cuda) ∧
      ∀ p, s.memAlloc gdrcopy pageSize args cuda = .inr p → calloc = true ∧ memcpy = true
  | .unexportMultiQpsDev _ qpGpus free =>
    s.mem.Meets gdrcopy pageSize (.memFree false qpGpus free) ∧
      ∀ w ∈ s.live, ∀ e, s.qp w = some e → ∀ p, e.cpuDb = some p → p.alloc ≠ qpGpus
  | .unexportQp w word copy unregister => ∀ e, s.qp w = some e →
    (e.nicHandler = .cpuProxy → ∀ p, e.cpuDb = some p →
      p.addr = p.alloc ∧ s.mem.Meets gdrcopy pageSize (.memFree false p.addr word)) ∧
    (∀ x, (s.account w).uar = some x → UnexportUarMeets s.uar x unregister) ∧
    (s.account w).copies = (e.qpGpu.map MemPtr.addr).toList ∧
    ∀ p, e.qpGpu = some p → s.mem.Meets gdrcopy pageSize (.memFree false p.addr copy)

end ExportSys

end Gpunetio
