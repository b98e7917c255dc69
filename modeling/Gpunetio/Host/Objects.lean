import Gpunetio.Host.Sizing
import Gpunetio.Lib.Staged
import Gpunetio.Lib.Trace

/-!
# The parts of Verbs objects

A completion queue, a queue pair, a shared receive queue, a umem and a UAR of the open library are
objects of several parts: the handle that the caller has, except for a shared receive queue, and
what the object's pointers stand for, each null or not. The constructor calls `create`, and
`destroy` if that throws; the destructor calls `destroy` again.

* `Part`, `Class`, `Class.order`: the parts, and the order in which `destroy` gives them back;
* `CqCreate.stages`, `QpCreate.stages`, `SrqCreate.stages`, `Request.stages`: the five `create`;
  `CqCreate.succeeds_iff`, `QpCreate.succeeds_iff`, `SrqCreate.succeeds_iff`: whether they succeed
  as in `Layout`;
* `World`, `World.createHandle`, `World.createSrq`, `World.destroyHandle`, `World.destroySrq`: the
  public functions, for any outcome of the calls they make; `World.step`;
* `World.Balanced`: what is held are the parts of the objects that live.
-/

namespace Gpunetio.Objects

open Custody Teardown Staged

/-! ## Parts -/

/-- What an object can have: its handle, and `m_verbs_device_attr`, the object of the driver,
`m_uar_obj`, `m_umem_obj` and `m_umem_buf`; a umem has `m_umem` and a UAR `m_uar`. -/
inductive Part
  | handle
  | deviceAttr
  | obj
  | uar
  | umemObj
  | umemBuf
deriving DecidableEq, Repr

/-- The part works with another one of its object: the driver's object with its UAR and its umem,
which is registered memory. -/
def Part.needs : Part → Part → Bool
  | obj, uar | obj, umemObj | umemObj, umemBuf => true
  | _, _ => false

/-- A part of the object with this number, whose attributes name other objects: external umems and
UARs, completion queues and a shared receive queue. -/
structure Res where
  owner : ℕ
  names : List ℕ
  part : Part
deriving DecidableEq, Repr

/-- `x` refers to `r`: by `Part.needs`, or as the driver's object to another one that it is made
with. -/
def Res.Refers (x r : Res) : Prop :=
  x.owner = r.owner ∧ x.part.needs r.part = true ∨
    x.owner ≠ r.owner ∧ x.part = .obj ∧ r.owner ∈ x.names

instance : DecidableRel Res.Refers := fun x r => by unfold Res.Refers; infer_instance

/-- The five kinds of objects. -/
inductive Class
  | cq
  | qp
  | srq
  | umem
  | uar
deriving DecidableEq, Repr

/-- The class has handles; a shared receive queue is its own. -/
def Class.hasHandle : Class → Bool
  | srq => false
  | _ => true

/-- The order of the method `destroy`. -/
def Class.order : Class → List Part
  | cq | qp => [.deviceAttr, .obj, .uar, .umemObj, .umemBuf]
  | srq => [.deviceAttr, .obj, .umemObj, .umemBuf]
  | umem => [.umemObj]
  | uar => [.uar]

/-! ## The constructors -/

/-- The rings and the doorbell record: on an external umem, whose address and id are read, or in
memory that is allocated and registered. -/
def umemStages (external ok : Bool) : List (Staged.Stage Part) :=
  if external then [.check ok] else [.acquire .umemBuf true, .acquire .umemObj ok]

/-- The UAR: an external one is read; else `ok` says that one of the two types can be allocated. -/
def uarStages (external ok : Bool) : List (Staged.Stage Part) :=
  if external then [.check ok] else [.acquire .uar ok]

theorem succeeds_umemStages (external ok : Bool) :
    Staged.succeeds (umemStages external ok) = ok := by
  cases external <;> cases ok <;> rfl

theorem succeeds_uarStages (external ok : Bool) :
    Staged.succeeds (uarStages external ok) = ok := by
  cases external <;> cases ok <;> rfl

/-- What a creation of a CQ depends on; `attrOpen` says that the attributes have an open part. -/
structure CqCreate where
  attrOpen : Bool
  dev : Layout.DeviceAttr
  attr : Layout.CqAttr
  externalUar : Bool
  calls : Layout.CreateCalls

/-- `doca_verbs_cq_open::create`. -/
def CqCreate.stages (x : CqCreate) : List (Staged.Stage Part) :=
  [.check x.attrOpen, .acquire .deviceAttr x.calls.queryDevice,
    .check (isPowerOfTwo x.attr.cqSize.toNat && x.attr.cqSize.toNat ≤ x.dev.maxCqe)] ++
    umemStages x.attr.externalUmem.isSome x.calls.umem ++ uarStages x.externalUar x.calls.uar ++
    [.acquire .obj x.calls.obj]

/-- The constructor comes to its end exactly if the CQ is created. -/
theorem CqCreate.succeeds_iff (x : CqCreate) (internal : Layout.Umem) :
    Staged.succeeds x.stages = true ↔
      x.attrOpen = true ∧ (x.attr.create x.dev internal x.calls).isSome = true := by
  rw [Layout.CqAttr.isSome_create]
  unfold CqCreate.stages Layout.CreateCalls.ok
  simp only [succeeds_append, succeeds_umemStages, succeeds_uarStages, Staged.succeeds,
    Bool.and_eq_true, decide_eq_true_eq, and_true]
  tauto

/-- What a creation of a QP depends on. A division by zero ends the process. -/
structure QpCreate where
  attrOpen : Bool
  dev : Layout.DeviceAttr
  attr : Layout.QpAttr
  externalUar : Bool
  calls : Layout.CreateCalls
  alive : attr.sizing dev ≠ .error .divByZero

/-- `doca_verbs_qp_open::create`. -/
def QpCreate.stages (x : QpCreate) : List (Staged.Stage Part) :=
  [.check x.attrOpen, .check (x.attr.externalUmem.isSome == x.attr.externalUmemDbr.isSome),
    .acquire .deviceAttr x.calls.queryDevice, .check (x.attr.sizing x.dev).isOk] ++
    uarStages x.externalUar x.calls.uar ++ umemStages x.attr.externalUmem.isSome x.calls.umem ++
    [.acquire .obj x.calls.obj]

/-- The constructor comes to its end exactly if the QP is created. -/
theorem QpCreate.succeeds_iff (x : QpCreate) (internal : Layout.Umem) :
    Staged.succeeds x.stages = true ↔
      x.attrOpen = true ∧ (x.attr.create x.dev internal x.calls).isSome = true := by
  have humems : (x.attr.sizing x.dev).isOk = true →
      (x.attr.externalUmem.isSome == x.attr.externalUmemDbr.isSome) = true := by
    intro hok
    by_contra hne
    have hbar : x.attr.Barred x.dev := .inl fun heq => hne (beq_iff_eq.2 heq)
    rw [show x.attr.sizing x.dev = .error .refused from Layout.refuseIf_of hbar] at hok
    cases hok
  rw [Layout.QpAttr.isSome_create]
  unfold QpCreate.stages Layout.CreateCalls.ok
  simp only [succeeds_append, succeeds_umemStages, succeeds_uarStages, Staged.succeeds,
    Bool.and_eq_true, and_true]
  tauto

/-- What a creation of an SRQ depends on. A division by zero ends the process. -/
structure SrqCreate where
  dev : Layout.DeviceAttr
  attr : Layout.SrqAttr
  calls : Layout.CreateCalls
  alive : attr.sizing dev ≠ .error .divByZero

/-- `doca_verbs_srq::create`. -/
def SrqCreate.stages (x : SrqCreate) : List (Staged.Stage Part) :=
  [.acquire .deviceAttr x.calls.queryDevice, .check (x.attr.sizing x.dev).isOk] ++
    umemStages x.attr.externalUmem.isSome x.calls.umem ++ [.acquire .obj x.calls.obj]

/-- The constructor comes to its end exactly if the SRQ, which has no UAR, is created. -/
theorem SrqCreate.succeeds_iff (x : SrqCreate) (internal : Layout.Umem) :
    Staged.succeeds x.stages = true ↔
      (x.attr.create x.dev internal { x.calls with uar := true }).isSome = true := by
  rw [Layout.SrqAttr.isSome_create]
  unfold SrqCreate.stages Layout.CreateCalls.ok
  simp only [succeeds_append, succeeds_umemStages, Staged.succeeds, Bool.and_eq_true, and_true]
  tauto

/-- A request for an object with a handle. For a umem `argsBad` says that the address is null or the
size 0, and for a UAR `typeKnown` that the allocation type can be converted. -/
inductive Request
  | cq (x : CqCreate)
  | qp (x : QpCreate)
  | umem (argsBad reg : Bool)
  | uar (typeKnown alloc : Bool)

namespace Request

/-- The class asked for. -/
def cls : Request → Class
  | cq _ => .cq
  | qp _ => .qp
  | umem _ _ => .umem
  | uar _ _ => .uar

/-- The method `create`. -/
def stages : Request → List (Staged.Stage Part)
  | cq x => x.stages
  | qp x => x.stages
  | umem _ reg => [.acquire .umemObj reg]
  | uar typeKnown alloc => [.check typeKnown, .acquire .uar alloc]

/-- `doca_verbs_umem_create` returns on bad arguments, and keeps the handle. -/
def returnsEarly : Request → Bool
  | umem argsBad _ => argsBad
  | _ => false

end Request

/-! ## Objects -/

/-- An object that lives, with the parts besides the handle. -/
structure Obj where
  id : ℕ
  cls : Class
  names : List ℕ
  parts : List Part
deriving DecidableEq, Repr

/-- A part of the object. -/
def Obj.res (o : Obj) (p : Part) : Res := ⟨o.id, o.names, p⟩

/-- Its handle, if it has one. -/
def Obj.handles (o : Obj) : List Res := if o.cls.hasHandle then [o.res .handle] else []

/-- All of it. -/
def Obj.held (o : Obj) : List Res := o.parts.map o.res ++ o.handles

/-- What the process holds, and its objects; `next` is the number of the next one. -/
structure World where
  next : ℕ
  site : Site Res
  objs : List Obj

/-- The driver's answers to a release of its object and of a umem. The other releases cannot fail: a
UAR is freed through a library that was there to allocate it. -/
structure Driver where
  obj : Bool
  umemObj : Bool
deriving DecidableEq, Repr

/-- The outcomes of the releases. -/
def Driver.ok (d : Driver) : Part → Bool
  | .obj => d.obj
  | .umemObj => d.umemObj
  | _ => true

/-- The method `destroy`, and whether it returns success. -/
def Obj.destroy (o : Obj) (d : Driver) (h : Holder Part Res) : Bool × Holder Part Res :=
  tearDown o.res Res.Refers d.ok o.cls.order h

/-- The arguments of a creation of an object with a handle, and its calls: `argNull` says that a
pointer that is checked first is null, `driver` answers where the constructor fails. -/
structure Create where
  req : Request
  names : List ℕ
  argNull : Bool
  calloc : Bool
  driver : Driver

/-- The arguments of a creation of an SRQ. -/
structure CreateSrq where
  req : SrqCreate
  names : List ℕ
  argNull : Bool
  driver : Driver

/-- The answers of the driver to the method, and to the destructor after it. -/
structure Destroy where
  first : Driver
  second : Driver

namespace World

/-- The object lives. -/
def enter (w : World) (o : Obj) (h : Holder Part Res) : World :=
  ⟨w.next + 1, h.site, { o with parts := h.parts } :: w.objs⟩

/-- The object does not come to live. -/
def discard (w : World) (site : Site Res) : World := ⟨w.next + 1, site, w.objs⟩

/-- `doca_verbs_cq_create`, `doca_verbs_qp_create`, `doca_verbs_umem_create` and
`doca_verbs_uar_create`. -/
def createHandle (w : World) (x : Create) : World :=
  if x.argNull || !x.calloc then w
  else
    let o : Obj := ⟨w.next, x.req.cls, x.names, []⟩
    let site := w.site.acquire (o.res .handle)
    if x.req.returnsEarly then w.discard site
    else
      match build o.res x.req.stages ⟨[], site⟩ with
      | (true, h) => w.enter o h
      | (false, h) =>
        w.discard ((o.destroy x.driver h).2.site.release Res.Refers (o.res .handle))

/-- `doca_verbs_srq_create`. -/
def createSrq (w : World) (x : CreateSrq) : World :=
  if x.argNull then w
  else
    let o : Obj := ⟨w.next, .srq, x.names, []⟩
    match build o.res x.req.stages ⟨[], w.site⟩ with
    | (true, h) => w.enter o h
    | (false, h) => w.discard (o.destroy x.driver h).2.site

/-- `doca_verbs_cq_destroy`, `doca_verbs_qp_destroy`, `doca_verbs_umem_destroy` and
`doca_verbs_uar_destroy`: the object is deleted whatever the method has returned. -/
def destroyHandle (w : World) (o : Obj) (d : Destroy) : World :=
  let h := (o.destroy d.second (o.destroy d.first ⟨o.parts, w.site⟩).2).2
  ⟨w.next, h.site.release Res.Refers (o.res .handle), w.objs.erase o⟩

/-- `doca_verbs_srq_destroy`: the object stays if the method fails. -/
def destroySrq (w : World) (o : Obj) (d : Destroy) : World :=
  match o.destroy d.first ⟨o.parts, w.site⟩ with
  | (true, h) => ⟨w.next, (o.destroy d.second h).2.site, w.objs.erase o⟩
  | (false, h) => ⟨w.next, h.site, { o with parts := h.parts } :: w.objs.erase o⟩

/-- The destroy function of the object. -/
def destroy (w : World) (o : Obj) (d : Destroy) : World :=
  if o.cls = .srq then w.destroySrq o d else w.destroyHandle o d

end World

/-! ## Histories -/

/-- A call. -/
inductive Event
  | create (x : Create)
  | createSrq (x : CreateSrq)
  | destroy (o : Obj) (d : Destroy)

namespace World

/-- **One call.** An object that is destroyed lives. -/
def step (w : World) : Event → World
  | .create x => w.createHandle x
  | .createSrq x => w.createSrq x
  | .destroy o d => if o ∈ w.objs then w.destroy o d else w

/-- No object has been made. -/
def empty : World := ⟨0, ⟨Store.empty, false⟩, []⟩

/-- **Exactly the parts of the objects that live are held**, and nothing has been given back that
was not held. -/
def Balanced (w : World) : Prop := w.site.store.Holds (w.objs.flatMap Obj.held)

end World

end Gpunetio.Objects
