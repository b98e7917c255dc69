import Gpunetio.Prm.Layout

/-!
# The commands that create objects

Each object of the device is created by one command that carries all its attributes. The host fills
it in member by member. For completion queues and shared receive queues the command says what the
attributes are; for a queue pair it does so unless the queue pair is to be the master of others:
`cd_master` is one bit, and it is written with the macro for 64 bits.

* `createCqOps`, `createSrqOps`, `createQpObj`: the statements;
* `CqArgs.val`, `SrqArgs.val`, `QpArgs.val`: what the members should say;
* **`createCq_msg`**, **`createSrq_msg`**: they do;
* `createQp_msg`, **`createQp_msg_iff`**: for a queue pair, exactly if `core_direct_master` is 0.
-/

namespace Gpunetio.Prm

open BitField

/-! ## Completion queues -/

/-- What `create_cq_obj` is given; `elementId` is the event queue that the driver names. -/
structure CqArgs where
  uarId : BitVec 32
  logNbCqes : BitVec 32
  dbUmemOffset : BitVec 64
  dbUmemId : BitVec 32
  wqUmemId : BitVec 32
  cqOverrun : Bool
  cqCollapsed : BitVec 8
  elementId : BitVec 32

/-- `create_cq_obj`. -/
def createCqOps (x : CqArgs) : List (DevxOp CreateCqField) :=
  [ .set .opcode 0x400,
    .set (.cqContext .cqeSz) 0,
    .set (.cqContext .cc) (x.cqCollapsed.setWidth 32),
    .set (.cqContext .oi) ((BitVec.ofBool x.cqOverrun).setWidth 32),
    .set (.cqContext .logCqSize) x.logNbCqes,
    .set (.cqContext .uarPage) x.uarId,
    .set .cqUmemId x.wqUmemId,
    .set .cqUmemValid 1,
    .set64 .cqUmemOffset 0,
    .set (.cqContext .dbrUmemId) x.dbUmemId,
    .set (.cqContext .dbrUmemValid) 1,
    .set64 (.cqContext .dbrAddr) x.dbUmemOffset,
    .set (.cqContext .cEqn) x.elementId,
    .set (.cqContext .logPageSize) 0 ]

/-- What the members should say. -/
def CqArgs.val (x : CqArgs) : CreateCqField → ℕ
  | .opcode => 0x400
  | .cqUmemOffset => 0
  | .cqUmemId => x.wqUmemId.toNat
  | .cqUmemValid => 1
  | .cqContext f =>
    match f with
    | .dbrUmemValid => 1
    | .cqeSz => 0
    | .cc => x.cqCollapsed.toNat
    | .oi => x.cqOverrun.toNat
    | .dbrUmemId => x.dbUmemId.toNat
    | .logCqSize => x.logNbCqes.toNat
    | .uarPage => x.uarId.toNat
    | .cEqn => x.elementId.toNat
    | .logPageSize => 0
    | .dbrAddr => x.dbUmemOffset.toNat

theorem toNat_wide8 (v : BitVec 8) : (v.setWidth 32).toNat = v.toNat := by
  rw [BitVec.toNat_setWidth, Nat.mod_eq_of_lt (by omega)]

theorem toNat_ofBool (b : Bool) :
    ((BitVec.ofBool b).setWidth 32).toNat % 2 ^ 1 = b.toNat % 2 ^ 1 := by
  cases b <;> rfl

/-- **The command for a completion queue** says what its attributes are, and nothing else. -/
theorem createCq_msg (x : CqArgs) :
    (DevxOp.exec createCqIn (createCqOps x) fun _ => 0).bits = createCqIn.encode x.val := by
  rw [DevxOp.bits_exec rfl, ByteMem.bits_zero]
  refine createCqIn.run_eq_encode fun n => ?_
  cases n with
  | cqContext f =>
    cases f with
    | cc => exact congrArg (· % 2 ^ 1) (toNat_wide8 x.cqCollapsed)
    | oi => exact toNat_ofBool x.cqOverrun
    | _ => rfl
  | _ => rfl

/-! ## Shared receive queues -/

/-- What `create_srq_obj` is given; `pdn` is the number of the protection domain. -/
structure SrqArgs where
  pdn : BitVec 32
  linkedList : Bool
  logSrqSize : BitVec 32
  logStride : BitVec 32
  dbrUmemOffset : BitVec 64
  dbrUmemId : BitVec 32
  wqUmemOffset : BitVec 64
  wqUmemId : BitVec 32

/-- `create_srq_obj`. -/
def createSrqOps (x : SrqArgs) : List (DevxOp CreateRmpField) :=
  [ .set .opcode 0x90c,
    .set (.ctx .state) 1,
    .set (.ctx (.wq .pd)) x.pdn,
    .cond x.linkedList (.set (.ctx (.wq .wqType)) 0),
    .cond x.linkedList (.set (.ctx .basicCyclicRcvWqe) 0),
    .cond (!x.linkedList) (.set (.ctx (.wq .wqType)) 1),
    .cond (!x.linkedList) (.set (.ctx .basicCyclicRcvWqe) 1),
    .set (.ctx (.wq .logWqSz)) x.logSrqSize,
    .set (.ctx (.wq .logWqStride)) x.logStride,
    .set (.ctx (.wq .endPaddingMode)) 1,
    .set (.ctx (.wq .wqUmemId)) x.wqUmemId,
    .set64 (.ctx (.wq .wqUmemOffset)) x.wqUmemOffset,
    .set (.ctx (.wq .wqUmemValid)) 1,
    .set (.ctx (.wq .dbrUmemId)) x.dbrUmemId,
    .set64 (.ctx (.wq .dbrAddr)) x.dbrUmemOffset,
    .set (.ctx (.wq .dbrUmemValid)) 1 ]

/-- What the members should say. -/
def SrqArgs.val (x : SrqArgs) : CreateRmpField → ℕ
  | .opcode => 0x90c
  | .ctx .state => 1
  | .ctx .basicCyclicRcvWqe => if x.linkedList then 0 else 1
  | .ctx (.wq f) =>
    match f with
    | .wqType => if x.linkedList then 0 else 1
    | .endPaddingMode => 1
    | .pd => x.pdn.toNat
    | .dbrAddr => x.dbrUmemOffset.toNat
    | .logWqStride => x.logStride.toNat
    | .logWqSz => x.logSrqSize.toNat
    | .dbrUmemValid => 1
    | .wqUmemValid => 1
    | .dbrUmemId => x.dbrUmemId.toNat
    | .wqUmemId => x.wqUmemId.toNat
    | .wqUmemOffset => x.wqUmemOffset.toNat

/-- A member that is written in one of two ways. -/
theorem getD_either (b : Bool) (w : ℕ) :
    ((if !b then some 1 else none).or (if b then some 0 else none)).getD 0 % 2 ^ w =
      (if b then 0 else 1) % 2 ^ w := by
  cases b <;> rfl

/-- **The command for a shared receive queue** says what its attributes are, and nothing else. -/
theorem createSrq_msg (x : SrqArgs) :
    (DevxOp.exec createRmpIn (createSrqOps x) fun _ => 0).bits = createRmpIn.encode x.val := by
  rw [DevxOp.bits_exec rfl, ByteMem.bits_zero]
  refine createRmpIn.run_eq_encode fun n => ?_
  cases n with
  | ctx f =>
    cases f with
    | basicCyclicRcvWqe => exact getD_either x.linkedList 1
    | wq f =>
      cases f with
      | wqType => exact getD_either x.linkedList 4
      | _ => rfl
    | _ => rfl
  | _ => rfl

/-! ## Queue pairs -/

/-- The errors that `create_qp_obj` returns before it passes the command on. -/
inductive CreateError
  | notSupported
  | invalidValue
  | driver
deriving DecidableEq, Repr

/-- A completion queue that a queue pair is given: whether it is one of this implementation, and its
number. -/
structure CqHandle where
  isOpen : Bool
  cqn : BitVec 32

/-- What `create_qp_obj` is given and reads; `pdn` is `none` where the driver does not name the
protection domain. -/
structure QpArgs where
  uarId : BitVec 32
  logRqSize : BitVec 32
  logSqSizeWqebb : BitVec 32
  logStride : BitVec 32
  dbrUmemOffset : BitVec 64
  dbrUmemId : BitVec 32
  wqUmemId : BitVec 32
  mRqSize : BitVec 32
  mSqSizeWqebb : BitVec 32
  sendCq : Option CqHandle
  receiveCq : Option CqHandle
  srqn : Option (BitVec 32)
  userIndex : BitVec 32
  sendDbrMode : BitVec 8
  coreDirectMaster : BitVec 8
  pdn : Option (BitVec 32)

namespace QpArgs

variable (x : QpArgs)

/-- `m_sq_size_wqebb > 0`. -/
def useSq : Bool := 0#32 < x.mSqSizeWqebb

/-- `use_rq`. -/
def useRq : Bool := 0#32 < x.mRqSize || x.srqn.isSome

/-- The number of a completion queue that is there. -/
def cqn (cq : Option CqHandle) : BitVec 32 := (cq.map CqHandle.cqn).getD 0

/-- `create_qp_obj`, up to the statement for `cd_master`. -/
def opsBefore (pdn : BitVec 32) : List (DevxOp CreateQpField) :=
  [ .set .opcode 0x500,
    .set (.qpc .st) 0,
    .set (.qpc .pd) pdn,
    .set (.qpc .userIndex) x.userIndex,
    .set (.qpc .uarPage) x.uarId,
    .cond x.useSq (.set (.qpc .cqnSnd) (cqn x.sendCq)),
    .cond x.useSq (.set (.qpc .logSqSize) x.logSqSizeWqebb),
    .cond (!x.useSq) (.set (.qpc .noSq) 1),
    .cond x.useRq (.set (.qpc .cqnRcv) (cqn x.receiveCq)),
    .cond x.srqn.isSome (.set (.qpc .srqnRmpnXrqn) (x.srqn.getD 0)),
    .cond x.srqn.isSome (.set (.qpc .rqType) 1),
    .cond (x.useRq && !x.srqn.isSome) (.set (.qpc .logRqStride) x.logStride),
    .cond (x.useRq && !x.srqn.isSome) (.set (.qpc .logRqSize) x.logRqSize),
    .cond (x.useRq && !x.srqn.isSome) (.set (.qpc .rqType) 0),
    .cond (!x.useRq) (.set (.qpc .rqType) 3),
    .set (.qpc .sendDbrMode) (x.sendDbrMode.setWidth 32),
    .set (.qpc .dbrUmemValid) 1,
    .set (.qpc .dbrUmemId) x.dbrUmemId,
    .set64 (.qpc .dbrAddr) x.dbrUmemOffset ]

/-- The statement for `cd_master`. -/
def opCdMaster : DevxOp CreateQpField := .set64 (.qpc .cdMaster) (x.coreDirectMaster.setWidth 64)

/-- The statements after it. -/
def opsAfter : List (DevxOp CreateQpField) :=
  [.set .wqUmemId x.wqUmemId, .set .wqUmemValid 1, .set (.qpc .logPageSize) 0]

/-- `create_qp_obj`, up to the message that is passed on. -/
def createQpObj : Except CreateError Bits :=
  if x.sendCq.any fun cq => !cq.isOpen then .error .notSupported
  else if x.receiveCq.any fun cq => !cq.isOpen then .error .notSupported
  else
    match x.pdn with
    | none => .error .driver
    | some pdn =>
      if x.useSq && x.sendCq.isNone then .error .invalidValue
      else if x.useRq && x.receiveCq.isNone then .error .invalidValue
      else .ok (DevxOp.exec createQpIn (x.opsBefore pdn ++ x.opCdMaster :: x.opsAfter)
        fun _ => 0).bits

/-- What the members should say. -/
def val (pdn : BitVec 32) : CreateQpField → ℕ
  | .opcode => 0x500
  | .wqUmemId => x.wqUmemId.toNat
  | .wqUmemValid => 1
  | .qpc f =>
    match f with
    | .pd => pdn.toNat
    | .userIndex => x.userIndex.toNat
    | .uarPage => x.uarId.toNat
    | .cqnSnd => if x.useSq then (cqn x.sendCq).toNat else 0
    | .logSqSize => if x.useSq then x.logSqSizeWqebb.toNat else 0
    | .noSq => if x.useSq then 0 else 1
    | .cqnRcv => if x.useRq then (cqn x.receiveCq).toNat else 0
    | .srqnRmpnXrqn => (x.srqn.getD 0).toNat
    | .rqType => if x.srqn.isSome then 1 else if x.useRq then 0 else 3
    | .logRqStride => if x.useRq && !x.srqn.isSome then x.logStride.toNat else 0
    | .logRqSize => if x.useRq && !x.srqn.isSome then x.logRqSize.toNat else 0
    | .sendDbrMode => x.sendDbrMode.toNat
    | .dbrUmemValid => 1
    | .dbrUmemId => x.dbrUmemId.toNat
    | .dbrAddr => x.dbrUmemOffset.toNat
    | .cdMaster => x.coreDirectMaster.toNat
    | _ => 0

/-- What they do say: the 64 bits that are written for `cd_master` end with `next_rcv_psn`. -/
def valWritten (pdn : BitVec 32) (n : CreateQpField) : ℕ :=
  if n = .qpc .cdMaster then 0
  else if n = .qpc .nextRcvPsn then x.coreDirectMaster.toNat
  else x.val pdn n

/-- The 64 bits. -/
def cdMasterBlock : Field := ⟨64 * ((createQpIn.field (.qpc .cdMaster)).off / 64), 64⟩

theorem before_apart (pdn : BitVec 32) :
    ∀ w ∈ (x.opsBefore pdn).map DevxOp.write, (createQpIn.field w.name).Apart cdMasterBlock := by
  have h : ((x.opsBefore pdn).map DevxOp.write).all
      (fun w => decide ((createQpIn.field w.name).Apart cdMasterBlock)) = true := rfl
  exact fun w hw => of_decide_eq_true (List.all_eq_true.1 h w hw)

/-- The writes that the statements amount to. -/
def writes (pdn : BitVec 32) : List (Write CreateQpField) :=
  (x.opsBefore pdn).map DevxOp.write ++
    ⟨true, .qpc .nextRcvPsn, x.coreDirectMaster.toNat⟩ :: x.opsAfter.map DevxOp.write

theorem exec_eq_run (pdn : BitVec 32) :
    (DevxOp.exec createQpIn (x.opsBefore pdn ++ x.opCdMaster :: x.opsAfter) fun _ => 0).bits =
      createQpIn.run (x.writes pdn) .zero := by
  have hexec : DevxOp.exec createQpIn (x.opsBefore pdn ++ x.opCdMaster :: x.opsAfter) (fun _ => 0) =
      DevxOp.exec createQpIn x.opsAfter (devxSet64 0 (x.coreDirectMaster.setWidth 64)
        (createQpIn.field (.qpc .cdMaster)).off
        (DevxOp.exec createQpIn (x.opsBefore pdn) fun _ => 0)) := List.foldl_append ..
  have hblock : Field.put ⟨8 * 0 + 64 * ((createQpIn.field (.qpc .cdMaster)).off / 64), 64⟩ =
      cdMasterBlock.put := rfl
  have hval : (x.coreDirectMaster.setWidth 64).toNat = x.coreDirectMaster.toNat := by
    rw [BitVec.toNat_setWidth, Nat.mod_eq_of_lt (by omega)]
  have hlt : x.coreDirectMaster.toNat < 2 ^ 24 := x.coreDirectMaster.isLt.trans (by decide)
  rw [hexec, DevxOp.bits_exec rfl, bits_devxSet64, hblock, hval, DevxOp.bits_exec rfl,
    ByteMem.bits_zero, writes, Format.run_append]
  rw [Field.put_eq_of_lt (g := createQpIn.field (.qpc .nextRcvPsn)) (by decide) (by decide) hlt
    fun k hk => createQpIn.run_of_apart (x.before_apart pdn) hk _]
  rfl

theorem getD_when (b : Bool) (v : ℕ) :
    (if b then some v else none).getD 0 = if b then v else 0 := by
  cases b <;> rfl

/-- **The command for a queue pair**, whatever `core_direct_master` is. -/
theorem createQp_msg (pdn : BitVec 32) :
    (DevxOp.exec createQpIn (x.opsBefore pdn ++ x.opCdMaster :: x.opsAfter) fun _ => 0).bits =
      createQpIn.encode (x.valWritten pdn) := by
  rw [exec_eq_run]
  refine createQpIn.run_eq_encode fun n => ?_
  have hno : ∀ b : Bool, (if !b then some 1 else none).getD 0 = if b then 0 else 1 := by decide
  have hsrq : ∀ o : Option (BitVec 32), (if o.isSome then some (o.getD 0).toNat else none).getD 0 =
      (o.getD 0).toNat := fun o => by cases o <;> rfl
  have htype : ∀ u v : Bool, (v → u) →
      (((if !u then some 3 else none).or (if u && !v then some 0 else none)).or
        (if v then some 1 else none)).getD 0 = if v then 1 else if u then 0 else 3 := by decide
  have huse : x.srqn.isSome → x.useRq := fun h => by rw [useRq, h, Bool.or_true]
  cases n with
  | qpc f =>
    cases f with
    | cqnSnd => exact congrArg (· % 2 ^ 24) (getD_when x.useSq (cqn x.sendCq).toNat)
    | logSqSize => exact congrArg (· % 2 ^ 4) (getD_when x.useSq x.logSqSizeWqebb.toNat)
    | noSq => exact congrArg (· % 2 ^ 1) (hno x.useSq)
    | cqnRcv => exact congrArg (· % 2 ^ 24) (getD_when x.useRq (cqn x.receiveCq).toNat)
    | srqnRmpnXrqn => exact congrArg (· % 2 ^ 24) (hsrq x.srqn)
    | rqType => exact congrArg (· % 2 ^ 3) (htype x.useRq x.srqn.isSome huse)
    | logRqStride =>
      exact congrArg (· % 2 ^ 3) (getD_when (x.useRq && !x.srqn.isSome) x.logStride.toNat)
    | logRqSize =>
      exact congrArg (· % 2 ^ 4) (getD_when (x.useRq && !x.srqn.isSome) x.logRqSize.toNat)
    | sendDbrMode => exact congrArg (· % 2 ^ 2) (toNat_wide8 x.sendDbrMode)
    | _ => rfl
  | _ => rfl

/-- A creation that has come as far as the command. -/
theorem createQpObj_ok {msg : Bits} (h : x.createQpObj = .ok msg) :
    ∃ pdn, x.pdn = some pdn ∧ msg = createQpIn.encode (x.valWritten pdn) := by
  unfold createQpObj at h
  split at h
  · cases h
  split at h
  · cases h
  split at h
  · cases h
  rename_i pdn hpdn
  split at h
  · cases h
  split at h
  · cases h
  cases h
  exact ⟨pdn, hpdn, x.createQp_msg pdn⟩

/-- **The command for a queue pair** says what the attributes are exactly if `core_direct_master` is
0. In any case all members other than two are right; `cd_master` is never set, and the value for it
is found in `next_rcv_psn`. -/
theorem createQp_msg_iff {msg : Bits} (h : x.createQpObj = .ok msg) :
    ∃ pdn, x.pdn = some pdn ∧
      (msg = createQpIn.encode (x.val pdn) ↔ x.coreDirectMaster = 0) ∧
      (∀ n, n ≠ .qpc .cdMaster → n ≠ .qpc .nextRcvPsn →
        createQpIn.get n msg = x.val pdn n % 2 ^ (createQpIn.field n).sz) ∧
      createQpIn.get (.qpc .cdMaster) msg = 0 ∧
      createQpIn.get (.qpc .nextRcvPsn) msg = x.coreDirectMaster.toNat := by
  obtain ⟨pdn, hpdn, rfl⟩ := x.createQpObj_ok h
  have hget := createQpIn.get_encode (x.valWritten pdn)
  have hlt : x.coreDirectMaster.toNat < 2 ^ 24 := x.coreDirectMaster.isLt.trans (by decide)
  have hpsn : createQpIn.get (.qpc .nextRcvPsn) (createQpIn.encode (x.valWritten pdn)) =
      x.coreDirectMaster.toNat := (hget (.qpc .nextRcvPsn)).trans (Nat.mod_eq_of_lt hlt)
  have hcd : createQpIn.get (.qpc .cdMaster) (createQpIn.encode (x.valWritten pdn)) = 0 :=
    (hget (.qpc .cdMaster)).trans (Nat.zero_mod _)
  refine ⟨pdn, hpdn, ⟨fun heq => ?_, fun hzero => ?_⟩, fun n h₁ h₂ => ?_, hcd, hpsn⟩
  · have hzero : createQpIn.get (.qpc .nextRcvPsn) (createQpIn.encode (x.val pdn)) = 0 :=
      createQpIn.get_encode (x.val pdn) (.qpc .nextRcvPsn)
    rw [← heq, hpsn] at hzero
    exact BitVec.eq_of_toNat_eq hzero
  · have hval : x.valWritten pdn = x.val pdn := by
      funext n
      unfold valWritten
      by_cases h₁ : n = .qpc .cdMaster
      · rw [if_pos h₁, h₁]
        exact (congrArg BitVec.toNat hzero).symm
      · by_cases h₂ : n = .qpc .nextRcvPsn
        · rw [if_neg h₁, if_pos h₂, h₂]
          exact congrArg BitVec.toNat hzero
        · rw [if_neg h₁, if_neg h₂]
    rw [hval]
  · rw [hget n]
    unfold valWritten
    rw [if_neg h₁, if_neg h₂]

/-- A queue pair with both queues and no shared one. -/
def plain (coreDirectMaster : BitVec 8) : QpArgs :=
  { uarId := 1, logRqSize := 6, logSqSizeWqebb := 6, logStride := 0, dbrUmemOffset := 64
    dbrUmemId := 2, wqUmemId := 3, mRqSize := 64, mSqSizeWqebb := 64, sendCq := some ⟨true, 4⟩
    receiveCq := some ⟨true, 5⟩, srqn := none, userIndex := 0, sendDbrMode := 0
    coreDirectMaster := coreDirectMaster, pdn := some 6 }

theorem plain_master : ∃ msg, (plain 1).createQpObj = .ok msg ∧
    createQpIn.get (.qpc .cdMaster) msg = 0 ∧ createQpIn.get (.qpc .nextRcvPsn) msg = 1 := by
  obtain ⟨pdn, -, -, -, hcd, hpsn⟩ := (plain 1).createQp_msg_iff rfl
  exact ⟨_, rfl, hcd, hpsn⟩

end QpArgs

end Gpunetio.Prm
