import Gpunetio.Host.Create
import Gpunetio.Host.Export
import Gpunetio.Lib.Teardown

/-!
# The life of a high-level queue pair

`doca_gpu_verbs_create_qp_hl` and `doca_gpu_verbs_create_qp_group_hl` with every resource they
acquire and every call that gives one back, on each path through their clean-up labels. A call
that gives back may fail, its status is logged or dropped. The sizes are those of the creation and
do not matter here; a size of zero is one of the ways in which an allocation fails.

* `Res`, `World`: the resources, each with those it refers to, and what the process holds;
  `World.release`: a call that gives one back;
* `createUar`, `createGpuUmem`, `createCq`, `createQp`, `flatListCreate`: the parts, for any
  outcome of the calls they make;
* `unexportQp`, `HlQp.teardown`: what `doca_gpu_verbs_unexport_qp` and
  `doca_gpu_verbs_destroy_qp_hl_internal` give back, in their order;
* `createQpHl`, `destroyQpHl`, `createQpGroupHl`, `destroyQpGroupHl`.
-/

namespace Gpunetio.Lifecycle

open Custody Teardown
open HighLevel (QpInitAttrHl argsValid)

/-- The kinds of resource, by the function that allocates them. Two are none: `hostAddress` is a
block of GPU memory under its address on the host, `deviceAddress` the export of a UAR under its
address on the GPU. -/
inductive ResKind
  | host
  | gpuMem
  | hostAddress
  | devMem
  | umem
  | uar
  | uarExport
  | deviceAddress
  | cqAttr
  | qpInitAttr
  | cq
  | qp
  | gverbs
deriving DecidableEq, Repr

/-- A resource, with the resources that it refers to; `goes` is the outcome of the call that gives
it back. -/
structure Res where
  kind : ResKind
  id : ℕ
  refs : List ℕ
  goes : Bool
deriving DecidableEq, Repr

/-- What no allocator has given out. -/
def Res.stray : Res := ⟨.hostAddress, 0, [], true⟩

/-- `x` refers to `r`. -/
def Res.Refers (x r : Res) : Prop := r.id ∈ x.refs

instance : DecidableRel Res.Refers := fun x r => inferInstanceAs (Decidable (r.id ∈ x.refs))

/-- What the process holds: resources, and open descriptors of the dmabuf calls. -/
structure World where
  next : ℕ
  site : Site Res
  openFds : ℕ
  pos : 0 < next
  valid : ∀ r ∈ site.store.held, 0 < r.id ∧ r.id < next
  nodup : site.store.held.Nodup

namespace World

/-- A process that holds nothing. -/
def init : World := ⟨1, ⟨⟨[], false⟩, false⟩, 0, Nat.one_pos, nofun, List.nodup_nil⟩

/-- The resource that is acquired next. -/
def fresh (kind : ResKind) (refs : List ℕ) (goes : Bool) (w : World) : Res :=
  ⟨kind, w.next, refs, goes⟩

theorem fresh_notMem (kind : ResKind) (refs : List ℕ) (goes : Bool) (w : World) :
    w.fresh kind refs goes ∉ w.site.store.held :=
  fun h => absurd (w.valid _ h).2 (Nat.lt_irrefl _)

/-- Acquire a resource. -/
def acquire (kind : ResKind) (refs : List ℕ) (goes : Bool) (w : World) : World where
  next := w.next + 1
  site := w.site.acquire (w.fresh kind refs goes)
  openFds := w.openFds
  pos := Nat.succ_pos _
  valid r hr := by
    obtain rfl | hr := List.mem_cons.1 hr
    · exact ⟨w.pos, Nat.lt_succ_self _⟩
    · exact ⟨(w.valid r hr).1, Nat.lt_succ_of_lt (w.valid r hr).2⟩
  nodup := List.nodup_cons.2 ⟨w.fresh_notMem kind refs goes, w.nodup⟩

/-- A resource is held and the call that is to give it back fails. -/
def Stuck (w : World) (r : Res) : Prop := r ∈ w.site.store.held ∧ r.goes = false

instance (w : World) (r : Res) : Decidable (w.Stuck r) := by unfold Stuck; infer_instance

/-- Give back a resource. A call that fails leaves it where it is. -/
def release (r : Res) (w : World) : World where
  next := w.next
  site := if w.Stuck r then w.site else w.site.release Res.Refers r
  openFds := w.openFds
  pos := w.pos
  valid x hx := by
    split_ifs at hx
    · exact w.valid x hx
    · exact w.valid x (Site.mem_of_mem_release Res.Refers hx)
  nodup := by
    split_ifs
    · exact w.nodup
    · exact Site.nodup_release Res.Refers w.nodup

/-- Give back some resources in turn. -/
def releaseAll (rs : List Res) (w : World) : World := rs.foldl (fun w r => w.release r) w

/-- `doca_gpu_get_dmabuf_fd` opens a descriptor. -/
def openFd (w : World) : World := { w with openFds := w.openFds + 1 }

/-- `close`. -/
def closeFd (w : World) : World := { w with openFds := w.openFds - 1 }

/-- What is held. -/
abbrev held (w : World) : List Res := w.site.store.held

/-- Something was given back that was not held. -/
abbrev misuse (w : World) : Bool := w.site.store.misuse

/-- Something was given back while another resource referred to it. -/
abbrev early (w : World) : Bool := w.site.early

end World

/-- The status of a call; which error it is does not matter. -/
inductive Status
  | success
  | error
deriving DecidableEq, Repr

/-- What a call leaves. -/
structure Made (α : Type) where
  status : Status
  out : α
  world : World

/-! ## UARs and umems -/

/-- The outcomes of `doca_verbs_uar_create` for the three allocation types, and of
`doca_verbs_uar_destroy`. -/
structure UarCalls where
  ncDedicated : Bool
  nc : Bool
  blueflame : Bool
  destroy : Bool
deriving DecidableEq, Repr

/-- `create_uar`. Where neither non-cached UAR can be had it still returns `DOCA_SUCCESS`. -/
def createUar (nicHandler : NicHandler) (c : UarCalls) (w : World) : Made (Option Res) :=
  if nicHandler ≠ .gpuSmBf then
    if c.ncDedicated || c.nc then
      ⟨.success, some (w.fresh .uar [] c.destroy), w.acquire .uar [] c.destroy⟩
    else ⟨.success, none, w⟩
  else if c.blueflame then
    ⟨.success, some (w.fresh .uar [] c.destroy), w.acquire .uar [] c.destroy⟩
  else ⟨.error, none, w⟩

/-- `doca_gpu_verbs_mem_reg_type`, and any other value that a caller passes for it. -/
inductive MemRegType
  | default
  | cudaDmabuf
  | cudaPeermem
  | other
deriving DecidableEq, Repr

/-- The outcomes of the calls of `create_gpu_umem`: the descriptor of `doca_gpu_get_dmabuf_fd`, if
there is one, and the two calls of `doca_verbs_umem_create`; and of `doca_verbs_umem_destroy`. -/
structure UmemCalls where
  dmabufFd : Option ℕ
  create : Bool
  peermem : Bool
  destroy : Bool
deriving DecidableEq, Repr

/-- The umem of the buffer `buf`. -/
def umemOf (buf : Res) (c : UmemCalls) (w : World) : Made (Option Res) :=
  ⟨.success, some (w.fresh .umem [buf.id] c.destroy), w.acquire .umem [buf.id] c.destroy⟩

/-- `close(dmabuf_fd)`, for a descriptor other than 0. -/
def closeDmabuf (fd : ℕ) (m : Made (Option Res)) : Made (Option Res) :=
  if fd > 0 then { m with world := m.world.closeFd } else m

/-- `create_gpu_umem`, on an output handle that is null, as at every call. -/
def createGpuUmem (mregType : MemRegType) (buf : Res) (c : UmemCalls) (w : World) :
    Made (Option Res) :=
  match mregType with
  | .default =>
    match c.dmabufFd with
    | none => if c.create then umemOf buf c w else ⟨.error, none, w⟩
    | some fd =>
      let w := w.openFd
      if c.create then closeDmabuf fd (umemOf buf c w)
      else if fd > 0 ∧ c.peermem then closeDmabuf fd (umemOf buf c w)
      else ⟨.error, none, w⟩
  | .cudaDmabuf =>
    match c.dmabufFd with
    | none => ⟨.error, none, w⟩
    | some fd =>
      let w := w.openFd
      if c.create then closeDmabuf fd (umemOf buf c w) else ⟨.error, none, w⟩
  | .cudaPeermem => if c.create then umemOf buf c w else ⟨.error, none, w⟩
  | .other => ⟨.success, none, w⟩

/-! ## Buffers -/

/-- What a creation is asked for, and whether the device address of host memory, and that of a UAR,
is its host address. -/
structure Env where
  mregType : MemRegType
  enableUmemCpu : Bool
  hostPointerOnDevice : Bool
  uarPointerOnDevice : Bool
deriving DecidableEq, Repr

/-- `*umem_dev_ptr`: the block under its address on the GPU, or on the host if the CPU uses it. -/
def Env.devPtr (env : Env) (block : Res) : Res :=
  if env.enableUmemCpu ∧ ¬ env.hostPointerOnDevice then { block with kind := .hostAddress }
  else block

/-- `cpu_db`: both output arguments of its allocation are this variable, the host address is written
last. -/
def Env.cpuDb (env : Env) (block : Res) : Res :=
  if env.hostPointerOnDevice then block else { block with kind := .hostAddress }

/-- `sq_db`: the export of a UAR under the address of the UAR on the GPU. -/
def Env.uarDb (env : Env) (x : Res) : Res :=
  if env.uarPointerOnDevice then x else { x with kind := .deviceAddress }

/-- The buffer under the address by which `doca_gpu_mem_free` knows it. -/
def Res.block (p : Res) : Res := if p.kind = .hostAddress then { p with kind := .gpuMem } else p

/-- The resource that `doca_gpu_mem_free` takes away. -/
def memFree (p : Res) : Res := if p.kind = .gpuMem then p else .stray

/-- The resource that `free` takes away. -/
def free (p : Res) : Res := if p.kind = .host then p else .stray

/-- The resource that `doca_gpu_verbs_unexport_uar` takes away: it knows an export by the host
address of the UAR. -/
def unexportUar (p : Res) : Res := if p.kind = .uarExport then p else .stray

/-- The type of registration: without dmabuf for a buffer on the host. -/
def Env.mreg (env : Env) (onHost : Bool) : MemRegType :=
  if env.enableUmemCpu || onHost then .cudaPeermem else env.mregType

/-! ## Completion queues -/

/-- The outcomes of the calls of `create_cq`, and of those that give back its CQ and its buffer. The
pointer that `doca_gpu_mem_alloc` writes is not initialised, `slotNull` says that it happens to be
null; `set` stands for the setters on arguments that are not null. -/
structure CqCalls where
  attr : Bool
  alloc : AllocOutcome
  slotNull : Bool
  calloc : Bool
  memcpy : Bool
  umem : UmemCalls
  set : Bool
  create : Bool
  attrDestroy : Bool
  destroy : Bool
  memFree : Bool
deriving DecidableEq, Repr

/-- The output handles of `create_cq`. -/
structure CqOut where
  verbsCq : Option Res
  gpuUmem : Option Res
  umemDevPtr : Option Res
deriving DecidableEq, Repr

/-- The local variables of `create_cq` and its output handles, at `destroy_resources`. -/
structure CqLocals where
  newCq : Option Res
  attr : Option Res
  gpuUmem : Option Res
  ring : Option Res
  umemDevPtr : Option Res
deriving DecidableEq, Repr

/-- The calls after `destroy_resources`. -/
def CqLocals.cleanup (l : CqLocals) : List Res :=
  l.newCq.toList ++ l.attr.toList ++ l.gpuUmem.toList ++ l.ring.toList ++
    l.umemDevPtr.toList.map memFree

/-- `goto destroy_resources` with a status; `*gpu_umem` and `*umem_dev_ptr` keep their values. -/
def CqLocals.destroyResources (l : CqLocals) (status : Status) (w : World) : Made CqOut :=
  ⟨status, ⟨none, l.gpuUmem, l.umemDevPtr⟩, w.releaseAll l.cleanup⟩

/-- The end of `create_cq`: the CQ is made and the attributes are destroyed. -/
def finishCq (uar : Option Res) (attr umem ptr : Res) (c : CqCalls) (w : World) : Made CqOut :=
  if !c.create then CqLocals.destroyResources ⟨none, attr, umem, none, ptr⟩ .error w
  else
    let refs := umem.id :: uar.toList.map (·.id)
    let cq := w.fresh .cq refs c.destroy
    let w := (w.acquire .cq refs c.destroy).releaseAll [attr]
    if !c.attrDestroy then CqLocals.destroyResources ⟨cq, attr, umem, none, ptr⟩ .error w
    else ⟨.success, ⟨cq, umem, ptr⟩, w⟩

/-- `create_cq` from the registration of the ring on. -/
def registerCq (env : Env) (uar : Option Res) (attr block : Res) (c : CqCalls) (w : World) :
    Made CqOut :=
  let ptr := env.devPtr block
  let m := createGpuUmem (env.mreg false) block c.umem w
  match m.status, m.out with
  | .error, umem => CqLocals.destroyResources ⟨none, attr, umem, none, ptr⟩ .error m.world
  -- `set_external_umem` refuses a null umem
  | .success, none => CqLocals.destroyResources ⟨none, attr, none, none, ptr⟩ .error m.world
  | .success, some umem =>
    if !c.set then CqLocals.destroyResources ⟨none, attr, umem, none, ptr⟩ .error m.world
    else finishCq uar attr umem ptr c m.world

/-- `create_cq`. A failed `cudaMemcpy` leaves the status of the allocation. -/
def createCq (env : Env) (uar : Option Res) (c : CqCalls) (w : World) : Made CqOut :=
  if !c.attr then ⟨.error, ⟨none, none, none⟩, w⟩
  else
    let attr := w.fresh .cqAttr [] true
    let w := w.acquire .cqAttr [] true
    match c.alloc with
    | .fails =>
      CqLocals.destroyResources ⟨none, attr, none, none, if c.slotNull then none else some .stray⟩
        .error w
    | .entryLost => CqLocals.destroyResources ⟨none, attr, none, none, some .stray⟩ .error w
    | .ok =>
      let block := w.fresh .gpuMem [] c.memFree
      let w := w.acquire .gpuMem [] c.memFree
      let ptr := env.devPtr block
      if !c.calloc then CqLocals.destroyResources ⟨none, attr, none, none, ptr⟩ .error w
      else
        let ring := w.fresh .host [] true
        let w := w.acquire .host [] true
        if !env.enableUmemCpu && !c.memcpy then
          CqLocals.destroyResources ⟨none, attr, none, ring, ptr⟩ .success w
        else registerCq env uar attr block c (w.releaseAll [ring])

/-! ## Queue pairs -/

/-- The outcomes of the calls of `create_qp`, and of those that give back its QP and its buffers;
`set` stands for the setters after the umems. -/
structure QpCalls where
  attr : Bool
  setUar : Bool
  canRegister : Option Bool
  alloc : AllocOutcome
  slotNull : Bool
  umem : UmemCalls
  setUmem : Bool
  callocDbr : Bool
  allocDbr : AllocOutcome
  umemDbr : UmemCalls
  set : Bool
  create : Bool
  attrDestroy : Bool
  destroy : Bool
  memFree : Bool
  memFreeDbr : Bool
deriving DecidableEq, Repr

/-- The output handles of `create_qp`, and the handler if it is written. -/
structure QpOut where
  verbsQp : Option Res
  gpuUmem : Option Res
  umemDevPtr : Option Res
  gpuUmemDbr : Option Res
  umemDbrDevPtr : Option Res
  nicHandler : Option NicHandler
deriving DecidableEq, Repr

/-- The local variables of `create_qp` and its output handles, at `destroy_resources`. -/
structure QpLocals where
  newQp : Option Res
  attr : Option Res
  gpuUmem : Option Res
  umemDevPtr : Option Res
  gpuUmemDbr : Option Res
  umemDbrDevPtr : Option Res
  nicHandler : NicHandler
deriving DecidableEq, Repr

/-- The calls after `destroy_resources`: the doorbell record goes to `free` only for the CPU proxy.
-/
def QpLocals.cleanup (l : QpLocals) : List Res :=
  l.newQp.toList ++ l.attr.toList ++ l.gpuUmem.toList ++ l.umemDevPtr.toList.map memFree ++
    l.gpuUmemDbr.toList ++
    l.umemDbrDevPtr.toList.map (if l.nicHandler = .cpuProxy then free else memFree)

/-- The output handles of a `create_qp` that fails. -/
def QpOut.null : QpOut := ⟨none, none, none, none, none, none⟩

/-- `goto destroy_resources` with a status; the output handles become null. -/
def QpLocals.destroyResources (l : QpLocals) (status : Status) (w : World) : Made QpOut :=
  ⟨status, .null, w.releaseAll l.cleanup⟩

/-- What `create_qp` is given: the queue pair's CQ and UAR, and the mode. -/
structure QpArgs where
  cqSq : Option Res
  externalUar : Option Res
  reqNicHandler : NicHandler
  sendDbrModeExt : DbrModeExt
deriving DecidableEq, Repr

/-- The handler that `create_qp` settles on. -/
def settle (ext : DbrModeExt) (nicHandler : NicHandler) : NicHandler :=
  if ext ≠ .validDbr ∧ nicHandler = .gpuSmDb then .gpuSmNoDbr else nicHandler

/-- The doorbell record is in host memory. -/
def dbrOnHost (nicHandler : NicHandler) (ext : DbrModeExt) : Bool :=
  nicHandler = .cpuProxy ∨ ext = .noDbrSwEmulated

/-- The end of `create_qp`, from the setters after the umems on. -/
def finishQp (a : QpArgs) (nicHandler : NicHandler) (attr uar umem ptr umemDbr dbr : Res)
    (c : QpCalls) (w : World) : Made QpOut :=
  let l : QpLocals := ⟨none, attr, umem, ptr, umemDbr, dbr, nicHandler⟩
  match a.cqSq with
  -- `set_send_cq` refuses a null CQ
  | none => l.destroyResources .error w
  | some cq =>
    if !c.set then l.destroyResources .error w
    else if !c.create then l.destroyResources .error w
    else
      let refs := [uar.id, umem.id, umemDbr.id, cq.id]
      let qp := w.fresh .qp refs c.destroy
      let w := (w.acquire .qp refs c.destroy).releaseAll [attr]
      if !c.attrDestroy then
        { l with newQp := some qp }.destroyResources .error w
      else ⟨.success, ⟨qp, umem, ptr, umemDbr, dbr, nicHandler⟩, w⟩

/-- `create_qp` from the registration of the doorbell record on. -/
def registerDbr (env : Env) (a : QpArgs) (nicHandler : NicHandler) (attr uar umem ptr dbr : Res)
    (c : QpCalls) (w : World) : Made QpOut :=
  let l : QpLocals := ⟨none, attr, umem, ptr, none, dbr, nicHandler⟩
  let m := createGpuUmem (env.mreg (dbrOnHost nicHandler a.sendDbrModeExt)) dbr.block c.umemDbr w
  match m.status, m.out with
  | .error, _ => l.destroyResources .error m.world
  | .success, none => l.destroyResources .error m.world
  | .success, some umemDbr => finishQp a nicHandler attr uar umem ptr umemDbr dbr c m.world

/-- `create_qp` from the doorbell record on. A failed `calloc` leaves the status of the call
before, and a failed `doca_gpu_mem_alloc` the pointer of the ring in the variable that is copied.
-/
def allocDbr (env : Env) (a : QpArgs) (nicHandler : NicHandler) (attr uar umem ptr : Res)
    (c : QpCalls) (w : World) : Made QpOut :=
  let l : QpLocals := ⟨none, attr, umem, ptr, none, none, nicHandler⟩
  if dbrOnHost nicHandler a.sendDbrModeExt then
    if !c.callocDbr then l.destroyResources .success w
    else
      registerDbr env a nicHandler attr uar umem ptr (w.fresh .host [] true) c
        (w.acquire .host [] true)
  else match c.allocDbr with
    | .fails => { l with umemDbrDevPtr := some ptr }.destroyResources .error w
    | .entryLost => { l with umemDbrDevPtr := some .stray }.destroyResources .error w
    | .ok =>
      registerDbr env a nicHandler attr uar umem ptr
        (env.devPtr (w.fresh .gpuMem [] c.memFreeDbr)) c (w.acquire .gpuMem [] c.memFreeDbr)

/-- `create_qp` from the ring on. -/
def allocRing (env : Env) (a : QpArgs) (nicHandler : NicHandler) (attr uar : Res) (c : QpCalls)
    (w : World) : Made QpOut :=
  match c.alloc with
  | .fails =>
    QpLocals.destroyResources
      ⟨none, attr, none, if c.slotNull then none else some .stray, none, none, nicHandler⟩ .error w
  | .entryLost =>
    QpLocals.destroyResources ⟨none, attr, none, some .stray, none, none, nicHandler⟩ .error w
  | .ok =>
    let block := w.fresh .gpuMem [] c.memFree
    let w := w.acquire .gpuMem [] c.memFree
    let ptr := env.devPtr block
    let l : QpLocals := ⟨none, attr, none, ptr, none, none, nicHandler⟩
    let m := createGpuUmem (env.mreg false) block c.umem w
    match m.status, m.out with
    | .error, _ => l.destroyResources .error m.world
    | .success, none => l.destroyResources .error m.world
    | .success, some umem =>
      if !c.setUmem then
        { l with gpuUmem := some umem }.destroyResources .error m.world
      else allocDbr env a nicHandler attr uar umem ptr c m.world

/-- `create_qp`. -/
def createQp (env : Env) (a : QpArgs) (c : QpCalls) (w : World) : Made QpOut :=
  if !c.attr then ⟨.error, .null, w⟩
  else
    let attr := w.fresh .qpInitAttr [] true
    let w := w.acquire .qpInitAttr [] true
    let l : QpLocals := ⟨none, attr, none, none, none, none, a.reqNicHandler⟩
    match a.externalUar with
    -- `set_external_uar` refuses a null UAR
    | none => l.destroyResources .error w
    | some uar =>
      if !c.setUar then l.destroyResources .error w
      else if a.reqNicHandler = .auto then
        match c.canRegister with
        | none => l.destroyResources .error w
        | some canRegister =>
          allocRing env a (settle a.sendDbrModeExt (if canRegister then .gpuSmDb else .cpuProxy))
            attr uar c w
      else allocRing env a (settle a.sendDbrModeExt a.reqNicHandler) attr uar c w

/-! ## Exported queue pairs -/

/-- `doca_gpu_verbs_qp` with its `qp_cpu`: the struct, and what its `sq_db` is on the GPU. -/
structure Gverbs where
  struct : Res
  sqDb : Res
deriving DecidableEq, Repr

/-- `doca_gpu_verbs_export_qp` where it succeeds: the struct refers to the QP and the CQ. The CPU
proxy gets a doorbell in host memory, any other handler an export of the UAR. -/
def exportQp (env : Env) (nicHandler : NicHandler) (uar : Option Res) (qp cq : Res) (goes : Bool)
    (w : World) : Gverbs × World :=
  let struct := w.fresh .gverbs [qp.id, cq.id] true
  let w := w.acquire .gverbs [qp.id, cq.id] true
  if nicHandler = .cpuProxy then
    (⟨struct, env.cpuDb (w.fresh .gpuMem [] goes)⟩, w.acquire .gpuMem [] goes)
  else
    let refs := uar.toList.map (·.id)
    (⟨struct, env.uarDb (w.fresh .uarExport refs goes)⟩, w.acquire .uarExport refs goes)

/-- `doca_gpu_verbs_unexport_qp`: what it gives back, in its order. The statuses are dropped. -/
def unexportQp (nicHandler : NicHandler) (g : Gverbs) : List Res :=
  [if nicHandler = .cpuProxy then memFree g.sqDb else unexportUar g.sqDb, g.struct]

/-! ## High-level queue pairs -/

/-- `doca_gpu_verbs_qp_hl`. -/
structure HlQp where
  nicHandler : NicHandler
  sendDbrModeExt : DbrModeExt
  qpGverbs : Option Gverbs
  qp : QpOut
  externalUar : Option Res
  cqSq : CqOut
deriving DecidableEq, Repr

/-- `calloc` of the struct, with the mode filled in. -/
def HlQp.zero (ext : DbrModeExt) : HlQp :=
  { nicHandler := .auto, sendDbrModeExt := ext, qpGverbs := none
    qp := .null, externalUar := none, cqSq := ⟨none, none, none⟩ }

/-- `doca_gpu_verbs_destroy_qp_hl_internal`: what it gives back, in its order. -/
def HlQp.teardown (q : HlQp) : List Res :=
  q.qpGverbs.toList.flatMap (unexportQp q.nicHandler) ++ q.qp.verbsQp.toList ++
    q.qp.gpuUmem.toList ++ q.qp.umemDevPtr.toList.map memFree ++ q.qp.gpuUmemDbr.toList ++
    q.qp.umemDbrDevPtr.toList.map
      (if dbrOnHost q.nicHandler q.sendDbrModeExt then free else memFree) ++
    q.externalUar.toList ++
    match q.cqSq.verbsCq with
    | none => []
    | some cq => cq :: q.cqSq.gpuUmem.toList ++ q.cqSq.umemDevPtr.toList.map memFree

/-- The outcomes for one queue pair; `unexport` is that of the call which takes back the export of
the UAR, or the doorbell of the CPU proxy. -/
structure HlCalls where
  cq : CqCalls
  uar : UarCalls
  qp : QpCalls
  exportQp : Bool
  unexport : Bool
deriving DecidableEq, Repr

/-- How the creation of one queue pair ends: at `exit_error`, with a bare `return status`, or well.
-/
inductive Ending
  | exitError
  | returned
  | built
deriving DecidableEq, Repr

/-- `create_qp` and `doca_gpu_verbs_export_qp` on a struct with its CQ and UAR. -/
def createAndExport (env : Env) (attr : QpInitAttrHl) (c : HlCalls) (q : HlQp) (w : World) :
    Ending × HlQp × World :=
  let m := createQp env ⟨q.cqSq.verbsCq, q.externalUar, attr.nicHandler, q.sendDbrModeExt⟩ c.qp w
  let q := { q with qp := m.out, nicHandler := m.out.nicHandler.getD q.nicHandler }
  match m.status, m.out.verbsQp, q.cqSq.verbsCq with
  | .error, _, _ => (.exitError, q, m.world)
  | .success, some qp, some cq =>
    if !c.exportQp then (.returned, q, m.world)
    else
      let g := exportQp env q.nicHandler q.externalUar qp cq c.unexport m.world
      (.built, { q with qpGverbs := some g.1 }, g.2)
  -- `export_qp` refuses a null QP or CQ
  | .success, _, _ => (.returned, q, m.world)

/-- The steps of `doca_gpu_verbs_create_qp_hl`: the CQ has no external UAR. -/
def createSingle (env : Env) (attr : QpInitAttrHl) (c : HlCalls) (w : World) :
    Ending × HlQp × World :=
  let q := HlQp.zero attr.sendDbrModeExt
  let mcq := createCq env none c.cq w
  let q := { q with cqSq := mcq.out }
  match mcq.status with
  | .error => (.exitError, q, mcq.world)
  | .success =>
    let muar := createUar attr.nicHandler c.uar mcq.world
    let q := { q with externalUar := muar.out, nicHandler := attr.nicHandler }
    match muar.status with
    | .error => (.exitError, q, muar.world)
    | .success => createAndExport env attr c q muar.world

/-- The steps of `doca_gpu_verbs_create_qp_group_hl` for one of its queue pairs, on a UAR. -/
def createOnUar (env : Env) (attr : QpInitAttrHl) (uar : Option Res) (c : HlCalls) (w : World) :
    Ending × HlQp × World :=
  let q := { HlQp.zero attr.sendDbrModeExt with externalUar := uar }
  let mcq := createCq env uar c.cq w
  let q := { q with cqSq := mcq.out }
  match mcq.status with
  | .error => (.exitError, q, mcq.world)
  | .success => createAndExport env attr c q mcq.world

/-- `doca_gpu_verbs_create_qp_hl`: the struct and the queue pair, or none with an error. -/
def createQpHl (env : Env) (attr : QpInitAttrHl) (calloc : Bool) (c : HlCalls) (w : World) :
    Option (Res × HlQp) × World :=
  if !(argsValid attr true && !attr.netDevNull && calloc) then (none, w)
  else
    let qp_ := w.fresh .host [] true
    match createSingle env attr c (w.acquire .host [] true) with
    | (.exitError, q, w) => (none, w.releaseAll (q.teardown ++ [qp_]))
    | (.returned, _, w) => (none, w)
    | (.built, q, w) => (some (qp_, q), w)

/-- `doca_gpu_verbs_destroy_qp_hl`. -/
def destroyQpHl (x : Res × HlQp) (w : World) : World := w.releaseAll (x.2.teardown ++ [x.1])

/-- The companion's handle of the shared UAR is cleared before it is torn down. -/
def HlQp.clearUar (q : HlQp) : HlQp := { q with externalUar := none }

/-- `exit_error` and `doca_gpu_verbs_destroy_qp_group_hl`: the main queue pair with the UAR first.
-/
def groupTeardown (main companion : HlQp) (qpg : Res) : List Res :=
  main.teardown ++ companion.clearUar.teardown ++ [qpg]

/-- `doca_gpu_verbs_create_qp_group_hl`. The main struct's handler is still `AUTO` when it asks for
the UAR. -/
def createQpGroupHl (env : Env) (attr : QpInitAttrHl) (calloc : Bool) (uar : UarCalls)
    (main companion : HlCalls) (w : World) : Option (Res × HlQp × HlQp) × World :=
  if !(argsValid attr false && calloc) then (none, w)
  else
    let qpg_ := w.fresh .host [] true
    let muar := createUar .auto uar (w.acquire .host [] true)
    match muar.status with
    | .error =>
      (none, muar.world.releaseAll
        (groupTeardown (HlQp.zero attr.sendDbrModeExt) (HlQp.zero .validDbr) qpg_))
    | .success =>
      match createOnUar env attr muar.out main muar.world with
      | (.exitError, q, w) =>
        (none, w.releaseAll (groupTeardown q (HlQp.zero .validDbr) qpg_))
      | (.returned, _, w) => (none, w)
      | (.built, qMain, w) =>
        -- the ring of the main CQ was allocated, so the rounded depth is not 0
        match createOnUar env attr muar.out companion w with
        | (.exitError, q, w) => (none, w.releaseAll (groupTeardown qMain q qpg_))
        | (.returned, _, w) => (none, w)
        | (.built, qCompanion, w) => (some (qpg_, qMain, qCompanion), w)

/-- `doca_gpu_verbs_destroy_qp_group_hl`. -/
def destroyQpGroupHl (x : Res × HlQp × HlQp) (w : World) : World :=
  w.releaseAll (groupTeardown x.2.1 x.2.2 x.1)

/-! ## The flat list -/

/-- The outcomes of the calls of the flat list: `cudaMalloc`, and one `cudaMemcpy` for each queue
pair.
-/
structure FlatCalls where
  cudaMalloc : Bool
  memcpy : List Bool
deriving DecidableEq, Repr

/-- `doca_gpu_verbs_qp_flat_list_create_hl`. On a failed copy the status is still `DOCA_SUCCESS`,
and `cudaFree` is given the address of the caller's variable. -/
def flatListCreate (nullArg : Bool) (c : FlatCalls) (w : World) : Made (Option Res) :=
  if nullArg || c.memcpy.isEmpty then ⟨.error, none, w⟩
  else if !c.cudaMalloc then ⟨.error, none, w⟩
  else
    let list := w.fresh .devMem [] true
    let w := w.acquire .devMem [] true
    if c.memcpy.all id then ⟨.success, some list, w⟩
    else ⟨.success, none, w.releaseAll [.stray]⟩

end Gpunetio.Lifecycle
