import Gpunetio.Prm.Devx

/-!
# The commands and their contexts

The structures of bits of the device's programming manual, as far as the host writes or reads their
members: a list of members in order, each with its width. Members without a name are reserved, or
never touched.

* `cqcBits`, `wqBits`, `rmpcBits`, `adsBits`, `qpcBits`: the contexts;
* `createCqIn`, `createRmpIn`, `createQpIn`, `modifyQpIn`: the commands. All those that modify a
  queue pair have the same head, and the answer to a query has its context at the same place;
* `CreateQpField.inWord`, `ModifyQpField.inWord`: which macro is for which member.
-/

namespace Gpunetio.Prm

open BitField

/-- The members of a structure that is a member itself. -/
def nested {N M : Type} (f : N → M) (l : List (Option N × ℕ)) : List (Option M × ℕ) :=
  l.map fun x => (x.1.map f, x.2)

/-! ## Completion queues -/

/-- Members of `mlx5_ifc_cqc_bits`. -/
inductive CqcField
  | dbrUmemValid
  | cqeSz
  | cc
  | oi
  | dbrUmemId
  | logCqSize
  | uarPage
  | cEqn
  | logPageSize
  | dbrAddr
deriving DecidableEq, Repr

/-- `mlx5_ifc_cqc_bits`. -/
def cqcBits : List (Option CqcField × ℕ) :=
  [ (none, 0x6), (some .dbrUmemValid, 0x1), (none, 0x1), (some .cqeSz, 0x3), (some .cc, 0x1),
    (none, 0x2), (some .oi, 0x1), (none, 0x11),
    (some .dbrUmemId, 0x20),
    (none, 0x20),
    (none, 0x3), (some .logCqSize, 0x5), (some .uarPage, 0x18),
    (none, 0x20),
    (none, 0x18), (some .cEqn, 0x8),
    (none, 0x3), (some .logPageSize, 0x5), (none, 0x18),
    (none, 0xe0),
    (some .dbrAddr, 0x40) ]

/-- Members of `mlx5_ifc_create_cq_in_bits`. -/
inductive CreateCqField
  | opcode
  | cqContext (f : CqcField)
  | cqUmemOffset
  | cqUmemId
  | cqUmemValid
deriving DecidableEq, Repr

/-- `mlx5_ifc_create_cq_in_bits`. -/
def createCqInBits : List (Option CreateCqField × ℕ) :=
  [(some .opcode, 0x10), (none, 0x70)] ++ nested .cqContext cqcBits ++
    [(some .cqUmemOffset, 0x40), (some .cqUmemId, 0x20), (some .cqUmemValid, 0x1), (none, 0x59f)]

theorem createCqIn_complete (n : CreateCqField) : (find n 0 createCqInBits).isSome := by
  cases n with
  | cqContext f => cases f <;> rfl
  | _ => rfl

/-- The command that creates a completion queue. -/
def createCqIn : Format CreateCqField := .ofLayout createCqInBits createCqIn_complete

/-! ## Shared receive queues -/

/-- Members of `mlx5_ifc_wq_bits`. -/
inductive WqField
  | wqType
  | endPaddingMode
  | pd
  | dbrAddr
  | logWqStride
  | logWqSz
  | dbrUmemValid
  | wqUmemValid
  | dbrUmemId
  | wqUmemId
  | wqUmemOffset
deriving DecidableEq, Repr

/-- `mlx5_ifc_wq_bits`. -/
def wqBits : List (Option WqField × ℕ) :=
  [ (some .wqType, 0x4), (none, 0x1), (some .endPaddingMode, 0x2), (none, 0x19),
    (none, 0x20),
    (none, 0x8), (some .pd, 0x18),
    (none, 0x20),
    (some .dbrAddr, 0x40),
    (none, 0x40),
    (none, 0xc), (some .logWqStride, 0x4), (none, 0xb), (some .logWqSz, 0x5),
    (some .dbrUmemValid, 0x1), (some .wqUmemValid, 0x1), (none, 0x1e),
    (some .dbrUmemId, 0x20),
    (some .wqUmemId, 0x20),
    (some .wqUmemOffset, 0x40),
    (none, 0x440) ]

/-- Members of `mlx5_ifc_rmpc_bits`. -/
inductive RmpcField
  | state
  | basicCyclicRcvWqe
  | wq (f : WqField)
deriving DecidableEq, Repr

/-- `mlx5_ifc_rmpc_bits`. -/
def rmpcBits : List (Option RmpcField × ℕ) :=
  [(none, 0x8), (some .state, 0x4), (none, 0x14), (some .basicCyclicRcvWqe, 0x1), (none, 0x15f)] ++
    nested .wq wqBits

/-- Members of `mlx5_ifc_create_rmp_in_bits`. -/
inductive CreateRmpField
  | opcode
  | ctx (f : RmpcField)
deriving DecidableEq, Repr

/-- `mlx5_ifc_create_rmp_in_bits`. -/
def createRmpInBits : List (Option CreateRmpField × ℕ) :=
  [(some .opcode, 0x10), (none, 0xf0)] ++ nested .ctx rmpcBits

theorem createRmpIn_complete (n : CreateRmpField) : (find n 0 createRmpInBits).isSome := by
  cases n with
  | ctx f =>
    cases f with
    | wq f => cases f <;> rfl
    | _ => rfl
  | _ => rfl

/-- The command that creates a shared receive queue. -/
def createRmpIn : Format CreateRmpField := .ofLayout createRmpInBits createRmpIn_complete

/-! ## Queue pairs -/

/-- Members of `mlx5_ifc_ads_bits`. -/
inductive AdsField
  | pkeyIndex
  | grh
  | rlid
  | ackTimeout
  | srcAddrIndex
  | statRate
  | hopLimit
  | tclass
  | rgidRip
  | dscp
  | udpSport
  | sl
  | vhcaPortNum
  | rmac47To32
  | rmac31To0
deriving DecidableEq, Repr

/-- `mlx5_ifc_ads_bits`. -/
def adsBits : List (Option AdsField × ℕ) :=
  [ (none, 0x10), (some .pkeyIndex, 0x10),
    (none, 0x8), (some .grh, 0x1), (none, 0x7), (some .rlid, 0x10),
    (some .ackTimeout, 0x5), (none, 0x3), (some .srcAddrIndex, 0x8), (none, 0x4),
    (some .statRate, 0x4), (some .hopLimit, 0x8),
    (none, 0x4), (some .tclass, 0x8), (none, 0x14),
    (some .rgidRip, 0x80),
    (none, 0xa), (some .dscp, 0x6), (some .udpSport, 0x10),
    (none, 0x4), (some .sl, 0x4), (some .vhcaPortNum, 0x8), (some .rmac47To32, 0x10),
    (some .rmac31To0, 0x20) ]

/-- Members of `mlx5_ifc_qpc_bits`. -/
inductive QpcField
  | state
  | st
  | pmState
  | pd
  | mtu
  | logMsgMax
  | logRqSize
  | logRqStride
  | noSq
  | logSqSize
  | counterSetId
  | uarPage
  | sendDbrMode
  | userIndex
  | logPageSize
  | remoteQpn
  | primaryAddressPath (f : AdsField)
  | logAckReqFreq
  | logSraMax
  | retryCount
  | rnrRetry
  | nextSendPsn
  | cqnSnd
  | logRraMax
  | atomicMode
  | rre
  | rwe
  | rae
  | cdMaster
  | minRnrNak
  | nextRcvPsn
  | cqnRcv
  | dbrAddr
  | rqType
  | srqnRmpnXrqn
  | dbrUmemValid
  | dbrUmemId
deriving DecidableEq, Repr

/-- The members of `mlx5_ifc_qpc_bits` before the primary path. -/
def qpcHead : List (Option QpcField × ℕ) :=
  [ (some .state, 0x4), (none, 0x4), (some .st, 0x8), (none, 0x3), (some .pmState, 0x2),
    (none, 0xb),
    (none, 0x8), (some .pd, 0x18),
    (some .mtu, 0x3), (some .logMsgMax, 0x5), (none, 0x1), (some .logRqSize, 0x4),
    (some .logRqStride, 0x3), (some .noSq, 0x1), (some .logSqSize, 0x4), (none, 0xb),
    (some .counterSetId, 0x8), (some .uarPage, 0x18),
    (some .sendDbrMode, 0x2), (none, 0x6), (some .userIndex, 0x18),
    (none, 0x3), (some .logPageSize, 0x5), (some .remoteQpn, 0x18) ]

/-- The members after it, the secondary path first. -/
def qpcTail : List (Option QpcField × ℕ) :=
  [ (none, 0x160),
    (some .logAckReqFreq, 0x4), (none, 0x4), (some .logSraMax, 0x3), (none, 0x2),
    (some .retryCount, 0x3), (some .rnrRetry, 0x3), (none, 0xd),
    (none, 0x20),
    (none, 0x8), (some .nextSendPsn, 0x18),
    (none, 0x8), (some .cqnSnd, 0x18),
    (none, 0x80),
    (none, 0x8), (some .logRraMax, 0x3), (none, 0x1), (some .atomicMode, 0x4), (some .rre, 0x1),
    (some .rwe, 0x1), (some .rae, 0x1), (none, 0xc), (some .cdMaster, 0x1),
    (none, 0x3), (some .minRnrNak, 0x5), (some .nextRcvPsn, 0x18),
    (none, 0x20),
    (none, 0x8), (some .cqnRcv, 0x18),
    (some .dbrAddr, 0x40),
    (none, 0x20),
    (none, 0x5), (some .rqType, 0x3), (some .srqnRmpnXrqn, 0x18),
    (none, 0x100),
    (none, 0x3), (some .dbrUmemValid, 0x1), (none, 0x9c),
    (some .dbrUmemId, 0x20) ]

/-- `mlx5_ifc_qpc_bits`. -/
def qpcBits : List (Option QpcField × ℕ) := qpcHead ++ nested .primaryAddressPath adsBits ++ qpcTail

/-- Members of `mlx5_ifc_create_qp_in_bits`. -/
inductive CreateQpField
  | opcode
  | qpc (f : QpcField)
  | wqUmemId
  | wqUmemValid
deriving DecidableEq, Repr

/-- `mlx5_ifc_create_qp_in_bits`. -/
def createQpInBits : List (Option CreateQpField × ℕ) :=
  [(some .opcode, 0x10), (none, 0xb0)] ++ nested .qpc qpcBits ++
    [(none, 0x40), (some .wqUmemId, 0x20), (some .wqUmemValid, 0x1), (none, 0x1f)]

theorem createQpIn_complete (n : CreateQpField) : (find n 0 createQpInBits).isSome := by
  cases n with
  | qpc f =>
    cases f with
    | primaryAddressPath f => cases f <;> rfl
    | _ => rfl
  | _ => rfl

/-- The command that creates a queue pair. -/
def createQpIn : Format CreateQpField := .ofLayout createQpInBits createQpIn_complete

/-- Members of the commands that modify a queue pair. -/
inductive ModifyQpField
  | opcode
  | qpn
  | optParamMask
  | qpc (f : QpcField)
deriving DecidableEq, Repr

/-- `mlx5_ifc_rst2init_qp_in_bits` and the four that are like it; `mlx5_ifc_qp_2err_in_bits` and
`mlx5_ifc_qp_2rst_in_bits` are its first 16 bytes. -/
def modifyQpInBits : List (Option ModifyQpField × ℕ) :=
  [ (some .opcode, 0x10), (none, 0x30), (none, 0x8), (some .qpn, 0x18), (none, 0x20),
    (some .optParamMask, 0x20), (none, 0x20) ] ++ nested .qpc qpcBits

theorem modifyQpIn_complete (n : ModifyQpField) : (find n 0 modifyQpInBits).isSome := by
  cases n with
  | qpc f =>
    cases f with
    | primaryAddressPath f => cases f <;> rfl
    | _ => rfl
  | _ => rfl

/-- The commands that modify a queue pair. -/
def modifyQpIn : Format ModifyQpField := .ofLayout modifyQpInBits modifyQpIn_complete

example : modifyQpIn.field (.qpc (.primaryAddressPath .rgidRip)) = ⟨0xc0 + 0xc0 + 0x80, 0x80⟩ := rfl

example : createQpIn.field (.qpc .cdMaster) = ⟨0xc0 + 0x49f, 0x1⟩ := rfl

end Gpunetio.Prm
