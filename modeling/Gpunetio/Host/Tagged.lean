import Gpunetio.Host.Memory
import Gpunetio.Door.Dispatch
import Gpunetio.Proxy.Model

/-!
# Handles that are an SDK pointer or an open-source object

Every handle of the library is a tag and a union: an opaque pointer of the vendor's SDK or a pointer
to an open-source object. An operation offers an SDK handle to the SDK wrapper first and goes on to
the open-source body on some of the wrapper's results.

* `Handle`, `OpenUse`: a handle, and one use of its union as an open-source object;
* `guarded`: the checks that getters, setters, `modify` and `query` share;
* `Accessor`, `Creator`, `Destroyer`, `Op`: the operations, each with the arguments its checks read;
* `Op.run`: the uses of an operation and its status;
* `Op.Exposed`: the inputs on which an SDK handle gets to an open-source body;
* **`openUse_iff`**: the uses of an operation are all of open-source handles exactly if it is not
  exposed.
-/

namespace Gpunetio.Tagged

/-- `doca_verbs_sdk_lib_type` and `doca_gpu_lib_type`. -/
inductive LibType
  | openSource
  | sdk
deriving DecidableEq, Repr

/-- `doca_sdk_wrapper_error_t`. -/
inductive WrapperError
  | success
  | notFound
  | apiError
  | apiInvalidValue
  | notSupported
deriving DecidableEq, Repr

/-- `doca_error_t`, as far as these operations return it. -/
inductive Status
  | success
  | invalidValue
  | noMemory
  | initialization
  | unexpected
  | notSupported
  | driver
deriving DecidableEq, Repr

/-- The handle types with a union, and the device handle. -/
inductive HandleKind
  | netDev
  | gpu
  | cqAttr
  | cq
  | qpAttr
  | qpInitAttr
  | qp
  | umem
  | uar
  | ahAttr
deriving DecidableEq, Repr

/-- A handle: its tag, and whether its union is other than null. -/
structure Handle (k : HandleKind) where
  type : LibType
  isSet : Bool
deriving DecidableEq, Repr

/-- What is done with a union as a pointer to an open-source object. -/
inductive Access
  | deref
  | delete
  | free
deriving DecidableEq, Repr

/-- One use of a handle's union as an open-source object. -/
structure OpenUse where
  {kind : HandleKind}
  handle : Handle kind
  access : Access

/-- The use is of an open-source object. -/
def OpenUse.OnOpen (u : OpenUse) : Prop := u.kind ≠ .netDev → u.handle.type = .openSource

/-- What an operation does: the uses, and the status where it returns one. -/
structure Outcome where
  uses : List OpenUse
  status : Option Status

/-- All uses are of open-source objects. -/
def Outcome.OnOpen (o : Outcome) : Prop := ∀ u ∈ o.uses, u.OnOpen

/-- The operation returns without a use. -/
def refuse (s : Status) : Outcome := ⟨[], some s⟩

/-- A handle pointer that an operation is given. -/
abbrev Arg (k : HandleKind) := Option (Handle k)

/-- How the calls out of an operation go. -/
structure Env where
  /-- The SDK wrapper's result. -/
  wrapper : WrapperError
  /-- The SDK set its pointer before it failed. -/
  sdkWrote : Bool
  /-- `calloc` of the handle. -/
  callocOk : Bool
  /-- The constructor, or the calls that fill the object, go through. -/
  builds : Bool
  /-- The body goes on to read through the pointers it was handed. -/
  reads : Bool
  /-- What the open-source method returns. -/
  method : Status
  /-- `assert` is compiled in. -/
  asserts : Bool
deriving DecidableEq, Repr

variable {k : HandleKind}

/-- A dereference of the union of `h`. -/
def deref (h : Handle k) : OpenUse := ⟨h, .deref⟩

/-- The checks that getters, setters, `modify` and `query` share: the null checks, the pass of an
SDK handle over the wrapper, the null check of the union, and the body. -/
def guarded (env : Env) (a : Arg k) (early mid late : Bool) (body : Handle k → Outcome) : Outcome :=
  match a with
  | none => refuse .invalidValue
  | some h =>
    if !early then refuse .invalidValue
    else if h.type = .sdk ∧ env.wrapper = .success then refuse .success
    else if h.type = .sdk ∧ env.wrapper = .apiError then refuse .unexpected
    else if !mid then refuse .invalidValue
    else if !h.isSet then refuse .invalidValue
    else if !late then refuse .invalidValue
    else body h

/-! ## Getters and setters -/

/-- The getters and setters, with the arguments that their checks read. A `Bool` says that the
caller passed a place for a result. -/
inductive Accessor : HandleKind → Type
  | cqAttrSetCqSize : Accessor .cqAttr
  | cqAttrSetCqContext : Accessor .cqAttr
  | cqAttrSetExternalUmem (externalUmem : Arg .umem) : Accessor .cqAttr
  | cqAttrSetExternalUar (externalUar : Arg .uar) : Accessor .cqAttr
  | cqAttrSetCqOverrun : Accessor .cqAttr
  | cqAttrSetCqCollapsed (cqCollapsed : BitVec 8) : Accessor .cqAttr
  | cqGetWq : Accessor .cq
  | cqGetDbrAddr : Accessor .cq
  | cqGetCqn : Accessor .cq
  | qpInitAttrSetSendCq (sendCq : Arg .cq) : Accessor .qpInitAttr
  | qpInitAttrSetReceiveCq (receiveCq : Arg .cq) : Accessor .qpInitAttr
  | qpInitAttrSetSqSigAll : Accessor .qpInitAttr
  | qpInitAttrSetSqWr : Accessor .qpInitAttr
  | qpInitAttrSetRqWr : Accessor .qpInitAttr
  | qpInitAttrSetSendMaxSges : Accessor .qpInitAttr
  | qpInitAttrSetReceiveMaxSges : Accessor .qpInitAttr
  | qpInitAttrSetMaxInlineData : Accessor .qpInitAttr
  | qpInitAttrSetUserIndex : Accessor .qpInitAttr
  | qpInitAttrSetQpType : Accessor .qpInitAttr
  | qpInitAttrSetExternalUmem (externalUmem : Arg .umem) : Accessor .qpInitAttr
  | qpInitAttrSetExternalUmemDbr (externalUmemDbr : Arg .umem) : Accessor .qpInitAttr
  | qpInitAttrSetExternalUar (externalUar : Arg .uar) : Accessor .qpInitAttr
  | qpInitAttrSetQpContext : Accessor .qpInitAttr
  | qpInitAttrSetCoreDirectMaster (coreDirectMaster : BitVec 8) : Accessor .qpInitAttr
  | qpInitAttrSetSendDbrMode : Accessor .qpInitAttr
  | qpInitAttrGetSendDbrMode : Accessor .qpInitAttr
  | qpAttrSetNextState : Accessor .qpAttr
  | qpAttrSetCurrentState : Accessor .qpAttr
  | qpAttrGetCurrentState : Accessor .qpAttr
  | qpAttrSetPathMtu : Accessor .qpAttr
  | qpAttrSetRqPsn : Accessor .qpAttr
  | qpAttrSetSqPsn : Accessor .qpAttr
  | qpAttrSetDestQpNum : Accessor .qpAttr
  | qpAttrSetAllowRemoteWrite : Accessor .qpAttr
  | qpAttrSetAllowRemoteRead : Accessor .qpAttr
  | qpAttrSetAtomicMode : Accessor .qpAttr
  | qpAttrSetPkeyIndex : Accessor .qpAttr
  | qpAttrSetPortNum : Accessor .qpAttr
  | qpAttrSetAckTimeout : Accessor .qpAttr
  | qpAttrSetRetryCnt : Accessor .qpAttr
  | qpAttrSetRnrRetry : Accessor .qpAttr
  | qpAttrSetMinRnrTimer : Accessor .qpAttr
  | qpAttrSetMaxRdAtomic (maxRdAtomic : BitVec 8) : Accessor .qpAttr
  | qpAttrSetMaxDestRdAtomic (maxDestRdAtomic : BitVec 8) : Accessor .qpAttr
  | ahAttrSetGid : Accessor .ahAttr
  | ahAttrSetAddrType : Accessor .ahAttr
  | ahAttrSetDlid : Accessor .ahAttr
  | ahAttrSetSl : Accessor .ahAttr
  | ahAttrSetSgidIndex : Accessor .ahAttr
  | ahAttrSetStaticRate : Accessor .ahAttr
  | ahAttrSetHopLimit : Accessor .ahAttr
  | ahAttrSetTrafficClass : Accessor .ahAttr
  | qpGetQpn (qpn : Bool) : Accessor .qp
  | qpGetDbrAddr (dbrAddr : Bool) : Accessor .qp
  | qpGetUarAddr (uarAddr : Bool) : Accessor .qp
  | qpGetWq (sqBuf sqNumEntries rqBuf rqNumEntries rwqeSizeBytes : Bool) : Accessor .qp
  | umemGetId (umemId : Bool) : Accessor .umem
  | umemGetSize (umemSize : Bool) : Accessor .umem
  | umemGetAddress (umemAddress : Bool) : Accessor .umem
  | uarIdGet (uarId : Bool) : Accessor .uar
  | uarRegAddrGet (regAddr : Bool) : Accessor .uar
  | uarDbrLessAddrGet (regAddr : Bool) : Accessor .uar

/-- The checks made before the wrapper is asked. -/
def Accessor.early : Accessor k → Bool
  | cqAttrSetExternalUmem u | qpInitAttrSetExternalUmem u | qpInitAttrSetExternalUmemDbr u =>
    u.isSome
  | cqAttrSetExternalUar u | qpInitAttrSetExternalUar u => u.isSome
  | qpInitAttrSetSendCq c | qpInitAttrSetReceiveCq c => c.isSome
  | qpInitAttrSetCoreDirectMaster v => v = 0 ∨ v = 1
  | qpGetQpn out | qpGetDbrAddr out | qpGetUarAddr out => out
  | qpGetWq sqBuf sqNum rqBuf rqNum rwqe => sqBuf && sqNum && rqBuf && rqNum && rwqe
  | umemGetId out | umemGetSize out | umemGetAddress out => out
  | uarIdGet out | uarRegAddrGet out | uarDbrLessAddrGet out => out
  | _ => true

/-- The checks made between the wrapper's pass and the null check of the union. -/
def Accessor.mid : Accessor k → Bool
  | qpAttrSetMaxRdAtomic v | qpAttrSetMaxDestRdAtomic v => privIsPowerOfTwo v.toNat
  | _ => true

/-- The checks made after the null check of the union. -/
def Accessor.late : Accessor k → Bool
  | cqAttrSetCqCollapsed v => v = 0 ∨ v = 1
  | _ => true

/-- A getter or setter. -/
def Accessor.run (env : Env) (f : Accessor k) (a : Arg k) : Outcome :=
  guarded env a f.early f.mid f.late fun h => ⟨[deref h], some .success⟩

/-! ## Creation and destruction -/

/-- The create functions, with the arguments that they read. -/
inductive Creator
  | cqAttrCreate (cqAttr : Bool)
  | qpInitAttrCreate
  | qpAttrCreate
  | ahAttrCreate (ahAttr : Bool)
  | cqCreate (netDev : Handle .netDev) (cqAttr : Arg .cqAttr)
  | qpCreate (netDev : Handle .netDev) (qpInitAttr : Arg .qpInitAttr)
  | umemCreate (netDev : Arg .netDev) (address size : ℕ) (umem : Bool)
  | uarCreate (netDev : Arg .netDev) (uar : Bool)
  | gpuCreate (gpuBusId gpuDev : Bool)

/-- The type of the handle that is created. -/
def Creator.kind : Creator → HandleKind
  | cqAttrCreate _ => .cqAttr
  | qpInitAttrCreate => .qpInitAttr
  | qpAttrCreate => .qpAttr
  | ahAttrCreate _ => .ahAttr
  | cqCreate _ _ => .cq
  | qpCreate _ _ => .qp
  | umemCreate .. => .umem
  | uarCreate _ _ => .uar
  | gpuCreate _ _ => .gpu

/-- The null checks made first. -/
def Creator.early : Creator → Bool
  | cqAttrCreate out | ahAttrCreate out => out
  | cqCreate _ attr => attr.isSome
  | qpCreate _ attr => attr.isSome
  | umemCreate netDev _ _ out | uarCreate netDev out => out && netDev.isSome
  | _ => true

/-- The checks made after the wrapper's pass. -/
def Creator.late : Creator → Bool
  | umemCreate _ address size _ => address ≠ 0 ∧ size ≠ 0
  | gpuCreate gpuBusId gpuDev => gpuBusId && gpuDev
  | _ => true

/-- The status where a check after the wrapper's pass fails. -/
def Creator.lateStatus : Creator → Status
  | gpuCreate _ _ => .initialization
  | _ => .invalidValue

/-- A dereference of the union of `a` by a constructor that checks it against null. -/
def derefIfSet (a : Arg k) : List OpenUse := (a.toList.filter (·.isSet)).map deref

/-- The uses of the arguments by the constructor's call. -/
def Creator.parts : Creator → List OpenUse
  | cqCreate netDev attr => deref netDev :: derefIfSet attr
  | qpCreate netDev attr => deref netDev :: derefIfSet attr
  | umemCreate netDev .. | uarCreate netDev _ => netDev.toList.map deref
  | _ => []

/-- How a handle's object is given back. -/
def HandleKind.release : HandleKind → Access
  | .gpu => .free
  | _ => .delete

/-- `if (x->open) delete x->open`, with `free` for a GPU handle. -/
def exitUses (h : Handle k) : List OpenUse := if h.isSet then [⟨h, k.release⟩] else []

/-- The object that the body builds is written to in `ah_attr_create` and `gpu_create`. -/
def Creator.ownUses : Creator → List OpenUse
  | ahAttrCreate _ => [deref (k := .ahAttr) ⟨.openSource, true⟩]
  | gpuCreate _ _ => [deref (k := .gpu) ⟨.openSource, true⟩]
  | _ => []

/-- What happens to the object when the body fails: only `gpu_create` can fail with it in place. -/
def Creator.undoUses : Creator → List OpenUse
  | c@(gpuCreate _ _) => c.ownUses ++ exitUses (k := .gpu) ⟨.openSource, true⟩
  | _ => []

/-- A create function. The handle comes from `calloc`, so its tag is `openSource` until it is set.
-/
def Creator.run (env : Env) (c : Creator) : Outcome :=
  if !c.early then refuse .invalidValue
  else if !env.callocOk then refuse .noMemory
  else if env.wrapper = .success then refuse .success
  else if env.wrapper = .apiError then
    ⟨exitUses (k := c.kind) ⟨.openSource, env.sdkWrote⟩, some .initialization⟩
  else if !c.late then refuse c.lateStatus
  else if env.builds then ⟨c.parts ++ c.ownUses, some .success⟩
  else ⟨c.parts ++ c.undoUses, some .initialization⟩

/-- The destroy functions. -/
inductive Destroyer : HandleKind → Type
  | cqAttrDestroy : Destroyer .cqAttr
  | qpInitAttrDestroy : Destroyer .qpInitAttr
  | qpAttrDestroy : Destroyer .qpAttr
  | ahAttrDestroy : Destroyer .ahAttr
  | cqDestroy : Destroyer .cq
  | qpDestroy : Destroyer .qp
  | umemDestroy : Destroyer .umem
  | uarDestroy : Destroyer .uar
  | gpuDestroy : Destroyer .gpu

/-- The function looks into the object: by its `destroy` method, or for the GPU's table. -/
def Destroyer.looks : Destroyer k → Bool
  | cqAttrDestroy | qpInitAttrDestroy | qpAttrDestroy | ahAttrDestroy => false
  | _ => true

/-- A destroy function: after a success of the wrapper the union is null, after its error it is
not. -/
def Destroyer.run (env : Env) (d : Destroyer k) (a : Arg k) : Outcome :=
  match a with
  | none => refuse .invalidValue
  | some h =>
    if h.type = .sdk ∧ env.wrapper = .success then
      ⟨exitUses (k := k) { h with isSet := false }, some .success⟩
    else if h.type = .sdk ∧ env.wrapper = .apiError then ⟨exitUses h, some .unexpected⟩
    else if !h.isSet then ⟨exitUses h, some .invalidValue⟩
    else ⟨(if d.looks then [deref h] else []) ++ exitUses h,
      some (if d.looks then env.method else .success)⟩

/-! ## The operations -/

/-- Every operation on a handle with a union. -/
inductive Op
  | access {k : HandleKind} (f : Accessor k) (a : Arg k)
  | create (c : Creator)
  | destroy {k : HandleKind} (d : Destroyer k) (a : Arg k)
  | qpInitAttrSetPd (a : Arg .qpInitAttr) (netDev : Arg .netDev)
  | qpInitAttrSetEmulateNoDbrExt (a : Arg .qpInitAttr)
  | qpInitAttrGetEmulateNoDbrExt (a : Arg .qpInitAttr)
  | qpInitAttrSetOrderingSemantic (a : Arg .qpInitAttr)
  | qpInitAttrGetOrderingSemantic (a : Arg .qpInitAttr) (orderingSemantic : Bool)
  | qpInitAttrSetSrq (a : Arg .qpInitAttr) (srq : Bool)
  | qpInitAttrGetSrq (a : Arg .qpInitAttr)
  | qpAttrSetCounterSetId (a : Arg .qpAttr)
  | qpAttrSetAhAttr (a : Arg .qpAttr) (ahAttr : Handle .ahAttr)
  | qpModify (qp : Arg .qp) (attr : Arg .qpAttr)
  | qpQuery (qp : Arg .qp) (attr : Arg .qpAttr) (initAttr : Arg .qpInitAttr)
  | qpGetEmulateNoDbrExt (qp : Arg .qp)
  | gpuMemAlloc (gpu : Arg .gpu) (size alignment : ℕ) (mtype : MemType) (memptrGpu memptrCpu : Bool)
  | gpuMemFree (gpu : Arg .gpu) (memptrGpu : Bool)
  | gpuGetDmabufFd (gpu : Arg .gpu) (haveCudaDmabuf : Bool)
  | exportQp (gpu : Handle .gpu) (qp : Arg .qp) (nicHandler : NicHandler) (cqSq : Arg .cq)
      (ext : DbrModeExt)
  | getQpDev (gpu : Handle .gpu) (qpGpuNull : Bool) (handler : NicHandler) (ext : DbrModeExt)
  | exportMultiQpsDev (gpu : Arg .gpu) (exts : List DbrModeExt) (outQpGpus : Bool)
  | createQp (externalUar : Arg .uar) (nicHandler : NicHandler)
  | createQpHl (gpu : Arg .gpu) (ibpdNetDev : Bool) (sqNwqe : BitVec 16) (ext : DbrModeExt)
  | createQpGroupHl (gpu : Arg .gpu) (ibpd : Bool) (sqNwqe : BitVec 16) (ext : DbrModeExt)
      (nicHandler : NicHandler)

/-- The ordering semantic is the SDK's alone: neither function touches an open-source object. -/
def orderingSemantic (env : Env) (a : Arg .qpInitAttr) (out : Bool) : Outcome :=
  match a with
  | none => refuse .invalidValue
  | some h =>
    if !out then refuse .invalidValue
    else if h.type = .openSource then refuse .notSupported
    else match env.wrapper with
      | .apiError => refuse .unexpected
      | .notSupported => refuse .notSupported
      | _ => refuse .success

/-- `emulate_no_dbr_ext` is the open source's alone: an SDK handle is refused. -/
def emulateNoDbrExt (a : Arg .qpInitAttr) : Outcome :=
  match a with
  | none => refuse .invalidValue
  | some h => if h.type = .sdk then refuse .invalidValue else ⟨[deref h], some .success⟩

/-- The checks of `doca_gpu_mem_alloc` after the null check of the union. -/
def memAllocLate (size alignment : ℕ) (mtype : MemType) (memptrGpu memptrCpu : Bool) : Bool :=
  memptrGpu && (mtype = .gpu || memptrCpu) && size ≠ 0 &&
    (alignment = 0 || privIsPowerOfTwo alignment)

/-- An operation: its uses and its status. -/
def Op.run (env : Env) : Op → Outcome
  | access f a => f.run env a
  | create c => c.run env
  | destroy d a => d.run env a
  | qpInitAttrSetPd a netDev =>
    guarded env a true true (netDev.any (·.type ≠ .sdk)) fun h =>
      ⟨deref h :: netDev.toList.map deref, some .success⟩
  | qpInitAttrSetEmulateNoDbrExt a | qpInitAttrGetEmulateNoDbrExt a => emulateNoDbrExt a
  | qpInitAttrSetOrderingSemantic a => orderingSemantic env a true
  | qpInitAttrGetOrderingSemantic a out => orderingSemantic env a out
  | qpInitAttrSetSrq a srq =>
    match a with
    | none => refuse .invalidValue
    | some h => if srq then ⟨[deref h], some .success⟩ else refuse .invalidValue
  | qpInitAttrGetSrq a => ⟨a.toList.map deref, none⟩
  | qpAttrSetCounterSetId a =>
    match a with
    | none => refuse .invalidValue
    | some h =>
      if h.type = .sdk then refuse .notSupported
      else if h.isSet then ⟨[deref h], some .success⟩ else refuse .invalidValue
  | qpAttrSetAhAttr a ahAttr =>
    guarded env a true true true fun h => ⟨[deref h, deref ahAttr], some .success⟩
  | qpModify qp attr =>
    guarded env qp attr.isSome true (attr.any (·.isSet)) fun h =>
      ⟨deref h :: if env.reads then derefIfSet attr else [], some env.method⟩
  | qpQuery qp attr initAttr =>
    guarded env qp (attr.isSome && initAttr.isSome) true
      (attr.any (·.isSet) && initAttr.any (·.isSet)) fun h =>
        ⟨deref h :: if env.reads then derefIfSet attr ++ derefIfSet initAttr else [],
          some env.method⟩
  | qpGetEmulateNoDbrExt qp =>
    match qp with
    | none => ⟨[], none⟩
    | some h => if h.type ≠ .sdk ∧ h.isSet then ⟨[deref h], none⟩ else ⟨[], none⟩
  | gpuMemAlloc gpu size alignment mtype memptrGpu memptrCpu =>
    guarded env gpu true true (memAllocLate size alignment mtype memptrGpu memptrCpu) fun h =>
      ⟨if env.reads then [deref h] else [], some env.method⟩
  | gpuMemFree gpu memptrGpu =>
    guarded env gpu true true memptrGpu fun h => ⟨[deref h], some env.method⟩
  | gpuGetDmabufFd gpu haveCudaDmabuf =>
    if !haveCudaDmabuf then refuse .notSupported
    else guarded env gpu true true true fun h => ⟨[deref h], some env.method⟩
  | exportQp gpu qp nicHandler cqSq ext =>
    if !gpu.isSet || qp.isNone || cqSq.isNone then refuse .invalidValue
    else if nicHandler = .gpuSmNoDbr ∧ ext = .validDbr then refuse .invalidValue
    else ⟨if ext = .noDbrSwEmulated then [deref gpu] else [], some env.method⟩
  | getQpDev gpu qpGpuNull handler ext =>
    ⟨if qpGpuNull ∧ env.builds ∧ ext = .noDbrSwEmulated ∧ handler ≠ .cpuProxy ∧ env.asserts
      then [deref gpu] else [], some env.method⟩
  | exportMultiQpsDev gpu exts out =>
    if gpu.isNone || exts.isEmpty || !out then refuse .invalidValue
    else ⟨if exts.contains .noDbrSwEmulated ∧ env.asserts then gpu.toList.map deref else [],
      some env.method⟩
  | createQp externalUar nicHandler =>
    ⟨if env.builds ∧ nicHandler = .auto then externalUar.toList.map deref else [], some env.method⟩
  | createQpHl gpu ibpdNetDev sqNwqe ext =>
    if gpu.isNone || !ibpdNetDev || sqNwqe = 0 then refuse .invalidValue
    else ⟨if ext = .noDbrSwEmulated then gpu.toList.map deref else [], some env.method⟩
  | createQpGroupHl gpu ibpd sqNwqe ext nicHandler =>
    if gpu.isNone || !ibpd || sqNwqe = 0 then refuse .invalidValue
    else if nicHandler = .gpuSmBf ∨ nicHandler = .gpuSmNoDbr then refuse .invalidValue
    else ⟨if ext = .noDbrSwEmulated then gpu.toList.map deref else [], some env.method⟩

/-! ## Where SDK handles get to open-source bodies -/

/-- The wrapper's result leads on to the open-source body. -/
def WrapperError.FallsThrough (w : WrapperError) : Prop := w ≠ .success ∧ w ≠ .apiError

instance (w : WrapperError) : Decidable w.FallsThrough := by
  unfold WrapperError.FallsThrough; infer_instance

/-- The handle gets past the shared checks of `guarded`. -/
def Handle.Passes (env : Env) (h : Handle k) : Prop :=
  h.isSet ∧ (h.type = .sdk → env.wrapper.FallsThrough)

/-- An SDK handle gets past the shared checks. -/
def Handle.SlipsIn (env : Env) (h : Handle k) : Prop :=
  h.isSet ∧ h.type = .sdk ∧ env.wrapper.FallsThrough

/-- The handle pointer is of an SDK handle. -/
def IsSdk (a : Arg k) : Prop := ∃ h ∈ a, h.type = .sdk

/-- The handle pointer is of an SDK handle whose union is not null. -/
def IsSetSdk (a : Arg k) : Prop := ∃ h ∈ a, h.type = .sdk ∧ h.isSet

/-- The inputs on which an SDK handle gets to an open-source body. -/
def Op.Exposed (env : Env) : Op → Prop
  | access f a => ∃ h ∈ a, h.SlipsIn env ∧ f.early ∧ f.mid ∧ f.late
  | create (.cqCreate _ attr) => env.callocOk ∧ env.wrapper.FallsThrough ∧ IsSetSdk attr
  | create (.qpCreate _ attr) => env.callocOk ∧ env.wrapper.FallsThrough ∧ IsSetSdk attr
  | create _ => False
  | destroy _ a => ∃ h ∈ a, h.type = .sdk ∧ h.isSet ∧ env.wrapper ≠ .success
  | qpInitAttrSetPd a netDev => (∃ h ∈ a, h.SlipsIn env) ∧ ∃ d ∈ netDev, d.type ≠ .sdk
  | qpInitAttrSetSrq a srq => IsSdk a ∧ srq
  | qpInitAttrGetSrq a => IsSdk a
  | qpAttrSetAhAttr a ahAttr =>
    ∃ h ∈ a, h.Passes env ∧ (h.type = .sdk ∨ ahAttr.type = .sdk)
  | qpModify qp attr =>
    (∃ h ∈ qp, ∃ b ∈ attr, h.Passes env ∧ b.isSet ∧ (h.type = .sdk ∨ env.reads ∧ b.type = .sdk))
  | qpQuery qp attr initAttr =>
    ∃ h ∈ qp, ∃ b ∈ attr, ∃ c ∈ initAttr, h.Passes env ∧ b.isSet ∧ c.isSet ∧
      (h.type = .sdk ∨ env.reads ∧ (b.type = .sdk ∨ c.type = .sdk))
  | gpuMemAlloc gpu size alignment mtype memptrGpu memptrCpu =>
    ∃ h ∈ gpu, h.SlipsIn env ∧ memAllocLate size alignment mtype memptrGpu memptrCpu ∧ env.reads
  | gpuMemFree gpu memptrGpu => ∃ h ∈ gpu, h.SlipsIn env ∧ memptrGpu
  | gpuGetDmabufFd gpu haveCudaDmabuf => ∃ h ∈ gpu, h.SlipsIn env ∧ haveCudaDmabuf
  | exportQp gpu qp _ cqSq ext =>
    gpu.type = .sdk ∧ gpu.isSet ∧ qp.isSome ∧ cqSq.isSome ∧ ext = .noDbrSwEmulated
  | getQpDev gpu qpGpuNull handler ext =>
    gpu.type = .sdk ∧ qpGpuNull ∧ env.builds ∧ ext = .noDbrSwEmulated ∧ handler ≠ .cpuProxy ∧
      env.asserts
  | exportMultiQpsDev gpu exts out => IsSdk gpu ∧ .noDbrSwEmulated ∈ exts ∧ out ∧ env.asserts
  | createQp externalUar nicHandler => IsSdk externalUar ∧ env.builds ∧ nicHandler = .auto
  | createQpHl gpu ibpdNetDev sqNwqe ext =>
    IsSdk gpu ∧ ibpdNetDev ∧ sqNwqe ≠ 0 ∧ ext = .noDbrSwEmulated
  | createQpGroupHl gpu ibpd sqNwqe ext nicHandler =>
    IsSdk gpu ∧ ibpd ∧ sqNwqe ≠ 0 ∧ ext = .noDbrSwEmulated ∧ nicHandler ≠ .gpuSmBf ∧
      nicHandler ≠ .gpuSmNoDbr
  | _ => False

/-! ## The uses of an operation -/

@[simp] theorem onOpen_deref (h : Handle k) :
    (deref h).OnOpen ↔ k = .netDev ∨ h.type = .openSource := by
  show (k ≠ .netDev → h.type = .openSource) ↔ _
  exact Classical.or_iff_not_imp_left.symm

@[simp] theorem onOpen_mk (h : Handle k) (a : Access) :
    (⟨h, a⟩ : OpenUse).OnOpen ↔ k = .netDev ∨ h.type = .openSource := onOpen_deref h

@[simp] theorem onOpen_refuse (s : Status) : (refuse s).OnOpen := by
  intro u hu
  cases hu

@[simp] theorem onOpen_nil (s : Option Status) : (⟨[], s⟩ : Outcome).OnOpen := by
  intro u hu
  cases hu

@[simp] theorem onOpen_cons (u : OpenUse) (us : List OpenUse) (s : Option Status) :
    (⟨u :: us, s⟩ : Outcome).OnOpen ↔ u.OnOpen ∧ (⟨us, s⟩ : Outcome).OnOpen :=
  List.forall_mem_cons

@[simp] theorem onOpen_append (us vs : List OpenUse) (s : Option Status) :
    (⟨us ++ vs, s⟩ : Outcome).OnOpen ↔ (⟨us, s⟩ : Outcome).OnOpen ∧ (⟨vs, s⟩ : Outcome).OnOpen :=
  List.forall_mem_append

theorem onOpen_ite (p : Prop) [Decidable p] (o o' : Outcome) :
    (if p then o else o').OnOpen ↔ (p → o.OnOpen) ∧ (¬ p → o'.OnOpen) := by
  by_cases h : p <;> simp [h]

theorem onOpen_usesIf (p : Prop) [Decidable p] (us : List OpenUse) (s : Option Status) :
    (⟨if p then us else [], s⟩ : Outcome).OnOpen ↔ (p → (⟨us, s⟩ : Outcome).OnOpen) := by
  by_cases h : p <;> simp [h]

theorem openSource_iff (t : LibType) : t = .openSource ↔ t ≠ .sdk := by
  cases t <;> simp

/-- The shared checks: what the body does counts on the handles that pass. -/
theorem guarded_iff (env : Env) (a : Arg k) (early mid late : Bool) (body : Handle k → Outcome) :
    (guarded env a early mid late body).OnOpen ↔
      ∀ h ∈ a, early → h.Passes env → mid → late → (body h).OnOpen := by
  cases a with
  | none => simp [guarded]
  | some h =>
    simp only [guarded, Option.mem_some_iff, forall_eq', Handle.Passes, WrapperError.FallsThrough]
    split_ifs <;> simp_all

theorem exitUses_iff (h : Handle k) (hk : k ≠ .netDev) (s : Option Status) :
    (⟨exitUses h, s⟩ : Outcome).OnOpen ↔ h.isSet → h.type = .openSource := by
  unfold exitUses
  split_ifs with hs <;> simp [hs, hk]

theorem derefIfSet_iff (a : Arg k) (hk : k ≠ .netDev) (s : Option Status) :
    (⟨derefIfSet a, s⟩ : Outcome).OnOpen ↔ ¬ IsSetSdk a := by
  cases a with
  | none => simp [derefIfSet, IsSetSdk]
  | some h =>
    by_cases hs : h.isSet <;> simp [derefIfSet, IsSetSdk, hs, hk, openSource_iff]

theorem derefAll_iff (a : Arg k) (hk : k ≠ .netDev) (s : Option Status) :
    (⟨a.toList.map deref, s⟩ : Outcome).OnOpen ↔ ¬ IsSdk a := by
  cases a with
  | none => simp [IsSdk]
  | some h => simp [IsSdk, hk, openSource_iff]

/-- The shared checks around a body that reads the handle's own object, if `reads` says so. -/
theorem guarded_own_iff (env : Env) (a : Arg k) (hk : k ≠ .netDev) (early mid late reads : Bool)
    (s : Option Status) :
    (guarded env a early mid late fun h => ⟨if reads then [deref h] else [], s⟩).OnOpen ↔
      ¬ ∃ h ∈ a, h.SlipsIn env ∧ early ∧ mid ∧ late ∧ reads := by
  rw [guarded_iff]
  constructor
  · rintro hall ⟨h, hh, ⟨hs, ht, hf⟩, he, hm, hl, rfl⟩
    have := hall h hh he ⟨hs, fun _ => hf⟩ hm hl
    simp only [if_true, onOpen_cons, onOpen_deref, hk, false_or, ht] at this
    exact nomatch this.1
  · intro hnone h hh he hp hm hl
    cases reads with
    | false => exact onOpen_nil s
    | true =>
      have ht : h.type ≠ .sdk := fun ht => hnone ⟨h, hh, ⟨hp.1, ht, hp.2 ht⟩, he, hm, hl, rfl⟩
      simpa [hk, openSource_iff] using ht

theorem Accessor.kind_ne (f : Accessor k) : k ≠ .netDev := by
  cases f <;> exact nofun

theorem Destroyer.kind_ne (d : Destroyer k) : k ≠ .netDev := by
  cases d <;> exact nofun

theorem destroyer_iff (env : Env) (d : Destroyer k) (a : Arg k) :
    (d.run env a).OnOpen ↔ ¬ ∃ h ∈ a, h.type = .sdk ∧ h.isSet ∧ env.wrapper ≠ .success := by
  have hk := d.kind_ne
  cases a with
  | none => simp [Destroyer.run]
  | some h =>
    simp only [Destroyer.run]
    split_ifs <;> simp_all [exitUses_iff, openSource_iff]

/-- A create function goes on to the constructor. -/
def Creator.Builds (env : Env) (c : Creator) : Prop :=
  c.early ∧ env.callocOk ∧ env.wrapper.FallsThrough ∧ c.late

theorem ownUses_onOpen (c : Creator) (s : Option Status) : (⟨c.ownUses, s⟩ : Outcome).OnOpen := by
  cases c <;> simp [Creator.ownUses]

theorem undoUses_onOpen (c : Creator) (s : Option Status) : (⟨c.undoUses, s⟩ : Outcome).OnOpen := by
  cases c <;> simp [Creator.undoUses, Creator.ownUses, exitUses]

theorem Creator.kind_ne (c : Creator) : c.kind ≠ .netDev := by
  cases c <;> exact nofun

/-- A create function touches its own handle only while the tag says open source, so what counts is
what the constructor does with the arguments. -/
theorem creator_iff (env : Env) (c : Creator) :
    (c.run env).OnOpen ↔ (c.Builds env → (⟨c.parts, none⟩ : Outcome).OnOpen) := by
  have hexit : ∀ b s, (⟨exitUses (k := c.kind) ⟨.openSource, b⟩, s⟩ : Outcome).OnOpen :=
    fun b s => (exitUses_iff _ c.kind_ne s).2 fun _ => rfl
  have hstatus : ∀ s, (⟨c.parts, s⟩ : Outcome).OnOpen ↔ (⟨c.parts, none⟩ : Outcome).OnOpen :=
    fun _ => Iff.rfl
  unfold Creator.run Creator.Builds WrapperError.FallsThrough
  split_ifs with _ _ _ hw
  case _ => simp_all
  case _ => simp_all
  case _ => simp_all
  case _ => simp only [hexit, hw, ne_eq, not_true, and_false, false_and, false_imp_iff]
  all_goals simp_all [ownUses_onOpen, undoUses_onOpen]

theorem emulateNoDbrExt_onOpen (a : Arg .qpInitAttr) : (emulateNoDbrExt a).OnOpen := by
  cases a with
  | none => simp [emulateNoDbrExt]
  | some h =>
    simp only [emulateNoDbrExt]
    split_ifs with ht <;> simp [openSource_iff, ht]

theorem orderingSemantic_onOpen (env : Env) (a : Arg .qpInitAttr) (out : Bool) :
    (orderingSemantic env a out).OnOpen := by
  cases a with
  | none => simp [orderingSemantic]
  | some h =>
    simp only [orderingSemantic]
    split_ifs
    · simp
    · simp
    · cases env.wrapper <;> simp

theorem constructor_iff (env : Env) (netDev : Handle .netDev) (a : Arg k) (hk : k ≠ .netDev)
    (s : Option Status) :
    (a.isSome ∧ env.callocOk ∧ env.wrapper.FallsThrough ∧ true →
      (⟨deref netDev :: derefIfSet a, s⟩ : Outcome).OnOpen) ↔
      ¬ (env.callocOk ∧ env.wrapper.FallsThrough ∧ IsSetSdk a) := by
  simp only [onOpen_cons, onOpen_deref, true_or, true_and, derefIfSet_iff a hk, and_true]
  cases a with
  | none => simp [IsSetSdk]
  | some h => simp only [Option.isSome_some, true_and]; tauto

/-! ## The main result -/

/-- **Tagged unions.** Every use of a union as an open-source object is of a handle whose tag says
so, exactly if the operation is not exposed. -/
theorem openUse_iff (env : Env) (op : Op) : (op.run env).OnOpen ↔ ¬ op.Exposed env := by
  cases op with
  | access f a =>
    refine (guarded_own_iff env a f.kind_ne f.early f.mid f.late true (some .success)).trans ?_
    simp only [Op.Exposed, and_true]
  | create c =>
    show (c.run env).OnOpen ↔ _
    rw [creator_iff]
    cases c with
    | cqCreate netDev attr => exact constructor_iff env netDev attr nofun none
    | qpCreate netDev attr => exact constructor_iff env netDev attr nofun none
    | umemCreate netDev _ _ _ => cases netDev <;> simp [Creator.parts, Op.Exposed]
    | uarCreate netDev _ => cases netDev <;> simp [Creator.parts, Op.Exposed]
    | _ => simp [Creator.parts, Op.Exposed]
  | destroy d a => exact destroyer_iff env d a
  | qpInitAttrSetPd a netDev =>
    show (guarded _ _ _ _ _ _).OnOpen ↔ _
    rw [guarded_iff]
    cases a <;> cases netDev <;>
      (simp [Op.Exposed, Handle.Passes, Handle.SlipsIn, openSource_iff]; try tauto)
  | qpInitAttrSetEmulateNoDbrExt a => exact iff_of_true (emulateNoDbrExt_onOpen a) nofun
  | qpInitAttrGetEmulateNoDbrExt a => exact iff_of_true (emulateNoDbrExt_onOpen a) nofun
  | qpInitAttrSetOrderingSemantic a =>
    exact iff_of_true (orderingSemantic_onOpen env a true) nofun
  | qpInitAttrGetOrderingSemantic a out =>
    exact iff_of_true (orderingSemantic_onOpen env a out) nofun
  | qpInitAttrSetSrq a srq =>
    cases a <;> cases srq <;> simp [Op.run, Op.Exposed, IsSdk, openSource_iff]
  | qpInitAttrGetSrq a => exact derefAll_iff a nofun none
  | qpAttrSetCounterSetId a =>
    cases a with
    | none => simp [Op.run, Op.Exposed]
    | some h =>
      simp only [Op.run, Op.Exposed]
      split_ifs <;> simp_all [openSource_iff]
  | qpAttrSetAhAttr a ahAttr =>
    show (guarded _ _ _ _ _ _).OnOpen ↔ _
    rw [guarded_iff]
    simp [Op.Exposed, openSource_iff]
  | qpModify qp attr =>
    show (guarded _ _ _ _ _ _).OnOpen ↔ _
    rw [guarded_iff]
    cases qp <;> cases attr <;>
      simp [Op.Exposed, openSource_iff, onOpen_usesIf, derefIfSet_iff, IsSetSdk]
    grind
  | qpQuery qp attr initAttr =>
    show (guarded _ _ _ _ _ _).OnOpen ↔ _
    rw [guarded_iff]
    cases qp <;> cases attr <;> cases initAttr <;>
      simp [Op.Exposed, openSource_iff, onOpen_usesIf, derefIfSet_iff, IsSetSdk]
    grind
  | qpGetEmulateNoDbrExt qp =>
    cases qp with
    | none => simp [Op.run, Op.Exposed]
    | some h =>
      simp only [Op.run, Op.Exposed]
      split_ifs <;> simp_all [openSource_iff]
  | gpuMemAlloc gpu size alignment mtype memptrGpu memptrCpu =>
    refine (guarded_own_iff env gpu nofun true true _ env.reads (some env.method)).trans ?_
    simp only [Op.Exposed, true_and]
  | gpuMemFree gpu memptrGpu =>
    refine (guarded_own_iff env gpu nofun true true memptrGpu true (some env.method)).trans ?_
    simp only [Op.Exposed, true_and, and_true]
  | gpuGetDmabufFd gpu haveCudaDmabuf =>
    have := guarded_own_iff env gpu nofun true true true true (some env.method)
    cases haveCudaDmabuf with
    | false => simp [Op.run, Op.Exposed]
    | true => simpa [Op.run, Op.Exposed] using this
  | exportQp gpu qp nicHandler cqSq ext =>
    cases qp <;> cases cqSq <;>
      simp [Op.run, Op.Exposed, onOpen_ite, onOpen_usesIf, openSource_iff]
    grind
  | getQpDev gpu qpGpuNull handler ext =>
    simp [Op.run, Op.Exposed, onOpen_usesIf, openSource_iff]
    grind
  | exportMultiQpsDev gpu exts out =>
    cases gpu <;> simp [Op.run, Op.Exposed, onOpen_ite, onOpen_usesIf, openSource_iff, IsSdk]
    grind
  | createQp externalUar nicHandler =>
    simp [Op.run, Op.Exposed, onOpen_usesIf, derefAll_iff]
    tauto
  | createQpHl gpu ibpdNetDev sqNwqe ext =>
    cases gpu <;> simp [Op.run, Op.Exposed, onOpen_ite, onOpen_usesIf, openSource_iff, IsSdk]
    grind
  | createQpGroupHl gpu ibpd sqNwqe ext nicHandler =>
    cases gpu <;> simp [Op.run, Op.Exposed, onOpen_ite, onOpen_usesIf, openSource_iff, IsSdk]
    grind

/-- A wrapper that fails on an SDK handle. -/
def Env.apiError : Env :=
  { wrapper := .apiError, sdkWrote := false, callocOk := true, builds := true, reads := true
    method := .success, asserts := true }

/-- An attribute object of the SDK. -/
def sdkAttr : Handle .cqAttr := ⟨.sdk, true⟩

/-- A failing destroy of an SDK attribute object deletes the SDK's pointer. -/
theorem openUse_refuted : ¬ ∀ (env : Env) (op : Op), (op.run env).OnOpen := by
  intro h
  have := h .apiError (.destroy .cqAttrDestroy (some sdkAttr)) ⟨sdkAttr, .delete⟩ (by
    simp [Op.run, Destroyer.run, Env.apiError, sdkAttr, exitUses, HandleKind.release]) nofun
  exact nomatch this

-- a setter refuses the handle in the same situation
example :
    (Op.run .apiError (.access .cqAttrSetCqSize (some sdkAttr))).status = some .unexpected := by
  decide

end Gpunetio.Tagged
