import Gpunetio.Prm.Layout
import Gpunetio.Verbs.Query

/-!
# Modify commands as messages

The seven transition functions of a queue pair write a message each, statement by statement and
under conditions. Elsewhere in this development such a command is a record; here it is shown that
the statements write the message of that record, bit by bit.

* `opcode`, `adsVal`, `qpcVal`, `cmdVal`, `message`: the message of a record;
* `rst2initOps` to `shortOps`, `statements`, `commandMsg`: the statements of the functions;
* `left`, `exec_eq_message`: what the statements leave in each member;
* **`commandMsg_eq`**: the two agree, for every record, mask and outcome of the calls on the way.
-/

namespace Gpunetio.Prm

open BitField Verbs

/-! ## What a command says -/

/-- `MLX5_CMD_OP_*`. -/
def opcode : Move → BitVec 32
  | .rst2init => 0x502
  | .init2init => 0x50e
  | .init2rtr => 0x503
  | .rtr2rts => 0x504
  | .rts2rts => 0x505
  | .qp2err => 0x507
  | .qp2rst => 0x50a

/-- The value of a path in the member of this name. -/
def adsVal (p : Ads) : AdsField → ℕ
  | .pkeyIndex => p.pkeyIndex.toNat
  | .grh => p.grh.toNat
  | .rlid => p.rlid.toNat
  | .ackTimeout => p.ackTimeout.toNat
  | .srcAddrIndex => p.srcAddrIndex.toNat
  | .statRate => p.statRate.toNat
  | .hopLimit => p.hopLimit.toNat
  | .tclass => p.tclass.toNat
  | .rgidRip => p.rgidRip.toNat
  | .dscp => p.dscp.toNat
  | .udpSport => p.udpSport.toNat
  | .sl => p.sl.toNat
  | .vhcaPortNum => p.vhcaPortNum.toNat
  | .rmac47To32 => p.rmac.toNat / 2 ^ 32
  | .rmac31To0 => p.rmac.toNat % 2 ^ 32

/-- The value of a context; the members that only a creation writes are zero. -/
def qpcVal (q : Qpc) : QpcField → ℕ
  | .state => q.state.toNat
  | .pmState => q.pmState.toNat
  | .mtu => q.mtu.toNat
  | .logMsgMax => q.logMsgMax.toNat
  | .counterSetId => q.counterSetId.toNat
  | .remoteQpn => q.remoteQpn.toNat
  | .primaryAddressPath f => adsVal q.primaryAddressPath f
  | .logAckReqFreq => q.logAckReqFreq.toNat
  | .logSraMax => q.logSraMax.toNat
  | .retryCount => q.retryCount.toNat
  | .rnrRetry => q.rnrRetry.toNat
  | .nextSendPsn => q.nextSendPsn.toNat
  | .logRraMax => q.logRraMax.toNat
  | .atomicMode => q.atomicMode.toNat
  | .rre => q.rre.toNat
  | .rwe => q.rwe.toNat
  | .rae => q.rae.toNat
  | .minRnrNak => q.minRnrNak.toNat
  | .nextRcvPsn => q.nextRcvPsn.toNat
  | _ => 0

/-- The value of a command on the queue pair `m_qp_num`. -/
def cmdVal (mQpNum : BitVec 32) (c : ModifyCmd) : ModifyQpField → ℕ
  | .opcode => (opcode c.opcode).toNat
  | .qpn => mQpNum.toNat
  | .optParamMask => c.optParamMask.toNat
  | .qpc f => qpcVal c.qpc f

/-- The message of a command. -/
def message (mQpNum : BitVec 32) (c : ModifyCmd) : Bits := modifyQpIn.encode (cmdVal mQpNum c)

/-! ## The statements of the transition functions -/

/-- `verbs_qp_attr->allow_remote_write == 1`. -/
def allowWrite (a : QpAttr) : Bool := a.allowRemoteWrite == 1

/-- The condition on `rre`. -/
def allowRead (a : QpAttr) (m : AttrMask) : Bool := m.has .allowRemoteRead && a.allowRemoteRead == 1

/-- The condition on `rae` and `atomic_mode`. -/
def atomics (a : QpAttr) (m : AttrMask) : Bool := m.has .atomicMode && a.atomicMode != 0

/-- A statement for a member of the primary path. -/
def setPath (f : AdsField) (v : BitVec 32) : DevxOp ModifyQpField :=
  .set (.qpc (.primaryAddressPath f)) v

/-- `rst2init`. -/
def rst2initOps (mQpNum : BitVec 32) (a : QpAttr) (m : AttrMask) : List (DevxOp ModifyQpField) :=
  [ .set .opcode (opcode .rst2init),
    .set .qpn mQpNum,
    setPath .vhcaPortNum (a.portNum.setWidth 32),
    .set (.qpc .pmState) 3,
    .set (.qpc .counterSetId) a.counterSetId,
    setPath .pkeyIndex (a.pkeyIndex.setWidth 32),
    .cond (allowWrite a) (.set (.qpc .rwe) 1),
    .cond (allowRead a m) (.set (.qpc .rre) 1),
    .cond (allowWrite a) (.set (.qpc .rwe) 1),
    .cond (atomics a m) (.set (.qpc .rae) 1),
    .cond (atomics a m) (.set (.qpc .atomicMode) a.atomicMode) ]

/-- `init2init`. -/
def init2initOps (mQpNum : BitVec 32) (a : QpAttr) (m : AttrMask) : List (DevxOp ModifyQpField) :=
  [ .set .opcode (opcode .init2init),
    .set .qpn mQpNum,
    setPath .vhcaPortNum (a.portNum.setWidth 32),
    setPath .pkeyIndex (a.pkeyIndex.setWidth 32),
    .cond (allowWrite a) (.set (.qpc .rwe) 1),
    .cond (allowRead a m) (.set (.qpc .rre) 1),
    .cond (atomics a m) (.set (.qpc .rae) 1),
    .cond (atomics a m) (.set (.qpc .atomicMode) a.atomicMode),
    .set .optParamMask (convertToOptParamMask m .init2init) ]

/-- The RoCE version is 2, or above. -/
def rocev2 (roceVersion : Option (BitVec 8)) : Bool := roceVersion.any fun v => 2#8 ≤ v

/-- `init2rtr`, with the MTU that has been converted, the MAC of a RoCE address, and the RoCE
version of an Ethernet port. -/
def init2rtrOps (mQpNum : BitVec 32) (a : QpAttr) (m : AttrMask) (udpSport : BitVec 16)
    (prmMtu : BitVec 3) (mac : Option (BitVec 48)) (roceVersion : Option (BitVec 8)) :
    List (DevxOp ModifyQpField) :=
  let h := a.ahAttr
  [ .set .opcode (opcode .init2rtr),
    .set .qpn mQpNum,
    .set (.qpc .nextRcvPsn) a.rqPsn,
    .set (.qpc .remoteQpn) a.destQpNum,
    .set (.qpc .logMsgMax) 30,
    .set (.qpc .mtu) (prmMtu.setWidth 32),
    .cond (m.has .minRnrTimer) (.set (.qpc .minRnrNak) (a.minRnrTimer.setWidth 32)),
    .cond h.isIb (setPath .tclass (h.trafficClass.setWidth 32)),
    .cond h.isIb (setPath .rlid h.dlid),
    .cond h.isIb (setPath .sl (h.sl.setWidth 32)),
    setPath .statRate (h.staticRate.setWidth 32),
    .cond (h.addrType != some .ibNoGrh) (.memcpy (.qpc (.primaryAddressPath .rgidRip)) 128 h.gid),
    .cond (h.addrType != some .ibNoGrh) (setPath .hopLimit (h.hopLimit.setWidth 32)),
    .cond (h.addrType != some .ibNoGrh) (setPath .srcAddrIndex (h.sgidIndex.setWidth 32)),
    .cond mac.isSome
      (.memcpy (.qpc (.primaryAddressPath .rmac47To32)) 16 ((mac.getD 0).extractLsb' 32 16)),
    .cond mac.isSome
      (.memcpy (.qpc (.primaryAddressPath .rmac31To0)) 32 ((mac.getD 0).extractLsb' 0 32)),
    .cond (h.addrType == some .ibGrh) (setPath .grh 1),
    .cond (rocev2 roceVersion) (setPath .udpSport (udpSport.setWidth 32)),
    .cond (rocev2 roceVersion) (setPath .dscp ((h.trafficClass >>> 2).setWidth 32)),
    setPath .pkeyIndex (a.pkeyIndex.setWidth 32),
    .cond (allowWrite a) (.set (.qpc .rwe) 1),
    .cond (allowRead a m) (.set (.qpc .rre) 1),
    .cond (atomics a m) (.set (.qpc .rae) 1),
    .cond (atomics a m) (.set (.qpc .atomicMode) a.atomicMode),
    .cond (m.has .maxDestRdAtomic)
      (.set (.qpc .logRraMax) (BitVec.ofNat 32 (docaInternalUtilsLog2 a.maxDestRdAtomic))),
    .set .optParamMask (convertToOptParamMask m .init2rtr) ]

/-- `rtr2rts`. -/
def rtr2rtsOps (mQpNum : BitVec 32) (a : QpAttr) (m : AttrMask) : List (DevxOp ModifyQpField) :=
  [ .set .opcode (opcode .rtr2rts),
    .set .qpn mQpNum,
    .set (.qpc .nextSendPsn) a.sqPsn,
    .cond (m.has .ackTimeout) (setPath .ackTimeout (a.ackTimeout.setWidth 32)),
    .cond (m.has .retryCnt) (.set (.qpc .retryCount) (a.retryCnt.setWidth 32)),
    .cond (m.has .rnrRetry) (.set (.qpc .rnrRetry) (a.rnrRetry.setWidth 32)),
    .cond (m.has .minRnrTimer) (.set (.qpc .minRnrNak) (a.minRnrTimer.setWidth 32)),
    .cond (allowWrite a) (.set (.qpc .rwe) 1),
    .cond (atomics a m) (.set (.qpc .rae) 1),
    .cond (atomics a m) (.set (.qpc .atomicMode) a.atomicMode),
    .cond (m.has .maxQpRdAtomic)
      (.set (.qpc .logSraMax) (BitVec.ofNat 32 (docaInternalUtilsLog2 a.maxRdAtomic))),
    .set (.qpc .logAckReqFreq) 0,
    .set .optParamMask (convertToOptParamMask m .rtr2rts) ]

/-- `rts2rts`, with the RoCE version if it has been asked for. -/
def rts2rtsOps (mQpNum : BitVec 32) (a : QpAttr) (m : AttrMask) (roceVersion : Option (BitVec 8)) :
    List (DevxOp ModifyQpField) :=
  [ .set .opcode (opcode .rts2rts),
    .set .qpn mQpNum,
    .cond (m.has .minRnrTimer) (.set (.qpc .minRnrNak) (a.minRnrTimer.setWidth 32)),
    .cond (allowWrite a) (.set (.qpc .rwe) 1),
    .cond (allowRead a m) (.set (.qpc .rre) 1),
    .cond (atomics a m) (.set (.qpc .rae) 1),
    .cond (atomics a m) (.set (.qpc .atomicMode) a.atomicMode),
    .cond (m.has .ahAttr) (setPath .srcAddrIndex (a.ahAttr.sgidIndex.setWidth 32)),
    .cond (rocev2 roceVersion) (setPath .dscp ((a.ahAttr.trafficClass >>> 2).setWidth 32)),
    .set .optParamMask (convertToOptParamMask m .rts2rts) ]

/-- `qp2err` and `qp2rst`. -/
def shortOps (t : Move) (mQpNum : BitVec 32) : List (DevxOp ModifyQpField) :=
  [.set .opcode (opcode t), .set .qpn mQpNum]

/-- What a transition function does before it passes the command on. -/
def statements (dev : DeviceAttr) (env : ModifyEnv) (a : QpAttr) (m : AttrMask)
    (mQpNum : BitVec 32) : Move → Except VerbsError (List (DevxOp ModifyQpField))
  | .rst2init =>
    if !isRst2initAttrsValid m then .error .invalidValue else .ok (rst2initOps mQpNum a m)
  | .init2init =>
    if !isInit2initAttrsValid m then .error .invalidValue else .ok (init2initOps mQpNum a m)
  | .init2rtr =>
    if !isInit2rtrAttrsValid m then .error .invalidValue
    else if m.has .ahAttr && !a.ahAttrEnabled then .error .invalidValue
    else do
      let prmMtu ← convertDocaMtuSizeToPrmMtuSize a.pathMtu
      let mac ← callIf a.ahAttr.isRoce env.remoteMac
      let roceVersion ← callIf dev.portTypeEth env.roceVersion
      pure (init2rtrOps mQpNum a m env.udpSport prmMtu mac roceVersion)
  | .rtr2rts => if !isRtr2rtsAttrsValid m then .error .invalidValue else .ok (rtr2rtsOps mQpNum a m)
  | .rts2rts =>
    if !isRts2rtsAttrsValid m then .error .invalidValue
    else if m.has .ahAttr && !a.ahAttrEnabled then .error .invalidValue
    else do
      let roceVersion ←
        callIf (m.has .ahAttr && (dev.isRts2rtsQpDscpSupported && dev.portTypeEth)) env.roceVersion
      pure (rts2rtsOps mQpNum a m roceVersion)
  | .qp2err => if !isX2errAttrsValid m then .error .invalidValue else .ok (shortOps .qp2err mQpNum)
  | .qp2rst => if !isX2rstAttrsValid m then .error .invalidValue else .ok (shortOps .qp2rst mQpNum)

/-- The message that is passed on. -/
def commandMsg (dev : DeviceAttr) (env : ModifyEnv) (a : QpAttr) (m : AttrMask)
    (mQpNum : BitVec 32) (t : Move) : Except VerbsError Bits :=
  (statements dev env a m mQpNum t).map fun ops => (DevxOp.exec modifyQpIn ops fun _ => 0).bits

/-! ## What the statements leave in the members -/

/-- What the statements leave in a member. -/
def left (ops : List (DevxOp ModifyQpField)) (n : ModifyQpField) : ℕ :=
  (last n (ops.map DevxOp.write)).getD 0 % 2 ^ (modifyQpIn.field n).sz

theorem exec_eq_message {ops : List (DevxOp ModifyQpField)} {mQpNum : BitVec 32} {c : ModifyCmd}
    (hp : ops.all (DevxOp.proper modifyQpIn) = true)
    (h : ∀ n, left ops n = cmdVal mQpNum c n % 2 ^ (modifyQpIn.field n).sz) :
    (DevxOp.exec modifyQpIn ops fun _ => 0).bits = message mQpNum c := by
  rw [DevxOp.bits_exec hp, ByteMem.bits_zero]
  exact modifyQpIn.run_eq_encode h

theorem toNat_cut {u : ℕ} (h : u ≤ 32) (w : ℕ) (v : BitVec u) :
    (v.setWidth 32).toNat % 2 ^ w = (v.setWidth w).toNat % 2 ^ w := by
  have hle : 2 ^ u ≤ 2 ^ 32 := Nat.pow_le_pow_right (by decide) h
  have hlt := v.isLt.trans_le hle
  rw [BitVec.toNat_setWidth, BitVec.toNat_setWidth, Nat.mod_eq_of_lt hlt, Nat.mod_mod]

theorem toNat_cut32 (w : ℕ) (v : BitVec 32) : v.toNat % 2 ^ w = (v.setWidth w).toNat % 2 ^ w := by
  rw [BitVec.toNat_setWidth, Nat.mod_mod]

theorem toNat_wide {u : ℕ} (h : u ≤ 32) (v : BitVec u) : (v.setWidth 32).toNat = v.toNat := by
  have hle : 2 ^ u ≤ 2 ^ 32 := Nat.pow_le_pow_right (by decide) h
  rw [BitVec.toNat_setWidth, Nat.mod_eq_of_lt (v.isLt.trans_le hle)]

/-- A member that is written under a condition. -/
theorem left_cond {w v : ℕ} {c : Bool} {p : Prop} [Decidable p] {x : BitVec w} (hc : c = true ↔ p)
    (hv : v % 2 ^ w = x.toNat % 2 ^ w) :
    (if c then some v else none).getD 0 % 2 ^ w = (if p then x else 0).toNat % 2 ^ w := by
  cases c with
  | false =>
    have hp : ¬ p := fun hp => Bool.false_ne_true (hc.2 hp)
    rw [if_neg hp]
    rfl
  | true =>
    rw [if_pos (hc.1 rfl)]
    exact hv

/-- The same, where the record has the condition as it is. -/
theorem left_when (c : Bool) {w v : ℕ} {x : BitVec w} (hv : v % 2 ^ w = x.toNat % 2 ^ w) :
    (if c then some v else none).getD 0 % 2 ^ w = (if c then x else 0).toNat % 2 ^ w :=
  left_cond Iff.rfl hv

theorem toNat_log2 (x : BitVec 8) :
    (BitVec.ofNat 32 (docaInternalUtilsLog2 x)).toNat % 2 ^ 3 =
      (BitVec.ofNat 3 (docaInternalUtilsLog2 x)).toNat % 2 ^ 3 := by
  rw [BitVec.toNat_ofNat, BitVec.toNat_ofNat, Nat.mod_mod, Nat.mod_mod_of_dvd _ (by decide)]

/-- The two parts of a MAC. -/
theorem left_mac {mac : Option (BitVec 48)} :
    (if mac.isSome then some ((mac.getD 0).extractLsb' 32 16).toNat else none).getD 0 % 2 ^ 16 =
        (mac.getD 0).toNat / 2 ^ 32 % 2 ^ 16 ∧
      (if mac.isSome then some ((mac.getD 0).extractLsb' 0 32).toNat else none).getD 0 % 2 ^ 32 =
        (mac.getD 0).toNat % 2 ^ 32 % 2 ^ 32 := by
  cases mac with
  | none => exact ⟨rfl, rfl⟩
  | some v => simp [BitVec.extractLsb'_toNat, Nat.shiftRight_eq_div_pow]

section Flags

variable (a : QpAttr) (m : AttrMask)

theorem left_rwe :
    (if allowWrite a then some 1 else none).getD 0 % 2 ^ 1 = a.rwe.toNat % 2 ^ 1 :=
  left_cond beq_iff_eq (x := (1 : BitVec 1)) rfl

theorem left_rwe_twice :
    ((if allowWrite a then some 1 else none).or (if allowWrite a then some 1 else none)).getD 0 %
      2 ^ 1 = a.rwe.toNat % 2 ^ 1 := by
  rw [← left_rwe]
  cases allowWrite a <;> rfl

theorem left_rre :
    (if allowRead a m then some 1 else none).getD 0 % 2 ^ 1 = (a.rre m).toNat % 2 ^ 1 :=
  left_cond (by rw [allowRead, Bool.and_eq_true, beq_iff_eq]) (x := (1 : BitVec 1)) rfl

theorem atomics_iff : atomics a m = true ↔ m.has .atomicMode ∧ a.atomicMode ≠ 0 := by
  rw [atomics, Bool.and_eq_true, bne_iff_ne]

theorem left_rae :
    (if atomics a m then some 1 else none).getD 0 % 2 ^ 1 = (a.rae m).toNat % 2 ^ 1 :=
  left_cond (atomics_iff a m) (x := (1 : BitVec 1)) rfl

theorem left_atomicMode :
    (if atomics a m then some a.atomicMode.toNat else none).getD 0 % 2 ^ 4 =
      (a.atomicModeBits m).toNat % 2 ^ 4 :=
  left_cond (atomics_iff a m) (toNat_cut32 4 a.atomicMode)

theorem left_dscp (roceVersion : Option (BitVec 8)) :
    (if rocev2 roceVersion then some ((a.ahAttr.trafficClass >>> 2).setWidth 32).toNat
        else none).getD 0 % 2 ^ 6 =
      (if rocev2 roceVersion then (a.ahAttr.trafficClass >>> 2).setWidth 6 else 0).toNat % 2 ^ 6 :=
  left_when (rocev2 roceVersion) (toNat_cut (by decide) 6 (a.ahAttr.trafficClass >>> 2))

end Flags

variable {a : QpAttr} {m : AttrMask}

theorem zero_rmac : 0 % 2 ^ 16 = (0 : BitVec 48).toNat / 2 ^ 32 % 2 ^ 16 ∧
    0 % 2 ^ 32 = (0 : BitVec 48).toNat % 2 ^ 32 % 2 ^ 32 := ⟨rfl, rfl⟩

theorem rst2init_left {c : ModifyCmd} (h : rst2initCmd a m = .ok c) (mQpNum : BitVec 32)
    (n : ModifyQpField) :
    left (rst2initOps mQpNum a m) n = cmdVal mQpNum c n % 2 ^ (modifyQpIn.field n).sz := by
  obtain ⟨-, hc⟩ := ok_of_guard h
  cases hc
  cases n with
  | qpc f =>
    cases f with
    | primaryAddressPath f =>
      cases f with
      | vhcaPortNum => exact toNat_cut (by decide) 8 a.portNum
      | pkeyIndex => exact congrArg (· % 2 ^ 16) (toNat_wide (by decide) a.pkeyIndex)
      | rmac47To32 => exact zero_rmac.1
      | rmac31To0 => exact zero_rmac.2
      | _ => rfl
    | counterSetId => exact toNat_cut32 8 a.counterSetId
    | rwe => exact left_rwe_twice a
    | rre => exact left_rre a m
    | rae => exact left_rae a m
    | atomicMode => exact left_atomicMode a m
    | _ => rfl
  | _ => rfl

theorem init2init_left {c : ModifyCmd} (h : init2initCmd a m = .ok c) (mQpNum : BitVec 32)
    (n : ModifyQpField) :
    left (init2initOps mQpNum a m) n = cmdVal mQpNum c n % 2 ^ (modifyQpIn.field n).sz := by
  obtain ⟨-, hc⟩ := ok_of_guard h
  cases hc
  cases n with
  | qpc f =>
    cases f with
    | primaryAddressPath f =>
      cases f with
      | vhcaPortNum => exact toNat_cut (by decide) 8 a.portNum
      | pkeyIndex => exact congrArg (· % 2 ^ 16) (toNat_wide (by decide) a.pkeyIndex)
      | rmac47To32 => exact zero_rmac.1
      | rmac31To0 => exact zero_rmac.2
      | _ => rfl
    | rwe => exact left_rwe a
    | rre => exact left_rre a m
    | rae => exact left_rae a m
    | atomicMode => exact left_atomicMode a m
    | _ => rfl
  | _ => rfl

theorem init2rtr_left (mQpNum : BitVec 32) (udpSport : BitVec 16) (prmMtu : BitVec 3)
    (mac : Option (BitVec 48)) (roceVersion : Option (BitVec 8)) (n : ModifyQpField) :
    left (init2rtrOps mQpNum a m udpSport prmMtu mac roceVersion) n =
      cmdVal mQpNum
        { opcode := .init2rtr
          optParamMask := convertToOptParamMask m .init2rtr
          qpc := init2rtrQpc a m prmMtu (init2rtrPath a udpSport mac roceVersion) } n %
        2 ^ (modifyQpIn.field n).sz := by
  have hgid : (a.ahAttr.addrType != some .ibNoGrh) = true ↔ a.ahAttr.addrType ≠ some .ibNoGrh :=
    bne_iff_ne
  have hgrh : (a.ahAttr.addrType == some .ibGrh) = true ↔ a.ahAttr.addrType = some .ibGrh :=
    beq_iff_eq
  cases n with
  | qpc f =>
    cases f with
    | primaryAddressPath f =>
      cases f with
      | pkeyIndex => exact congrArg (· % 2 ^ 16) (toNat_wide (by decide) a.pkeyIndex)
      | grh => exact (left_cond hgrh (x := (1 : BitVec 1)) rfl :)
      | rlid => exact (left_when a.ahAttr.isIb (toNat_cut32 16 a.ahAttr.dlid) :)
      | srcAddrIndex => exact (left_cond hgid (toNat_cut (by decide) 8 a.ahAttr.sgidIndex) :)
      | statRate => exact toNat_cut (by decide) 4 a.ahAttr.staticRate
      | hopLimit => exact (left_cond hgid (toNat_cut (by decide) 8 a.ahAttr.hopLimit) :)
      | tclass => exact (left_when a.ahAttr.isIb (toNat_cut (by decide) 8 a.ahAttr.trafficClass) :)
      | rgidRip => exact (left_cond hgid rfl :)
      | dscp => exact (left_dscp a roceVersion :)
      | udpSport => exact (left_when (rocev2 roceVersion) (toNat_cut (by decide) 16 udpSport) :)
      | sl => exact (left_when a.ahAttr.isIb (toNat_cut (by decide) 4 a.ahAttr.sl) :)
      | rmac47To32 => exact left_mac.1
      | rmac31To0 => exact left_mac.2
      | _ => rfl
    | mtu => exact congrArg (· % 2 ^ 3) (toNat_wide (by decide) prmMtu)
    | remoteQpn => exact toNat_cut32 24 a.destQpNum
    | nextRcvPsn => exact toNat_cut32 24 a.rqPsn
    | minRnrNak => exact (left_when (m.has .minRnrTimer) (toNat_cut (by decide) 5 a.minRnrTimer) :)
    | rwe => exact left_rwe a
    | rre => exact left_rre a m
    | rae => exact left_rae a m
    | atomicMode => exact left_atomicMode a m
    | logRraMax => exact (left_when (m.has .maxDestRdAtomic) (toNat_log2 a.maxDestRdAtomic) :)
    | _ => rfl
  | _ => rfl

theorem rtr2rts_left {c : ModifyCmd} (h : rtr2rtsCmd a m = .ok c) (mQpNum : BitVec 32)
    (n : ModifyQpField) :
    left (rtr2rtsOps mQpNum a m) n = cmdVal mQpNum c n % 2 ^ (modifyQpIn.field n).sz := by
  obtain ⟨-, hc⟩ := ok_of_guard h
  cases hc
  cases n with
  | qpc f =>
    cases f with
    | primaryAddressPath f =>
      cases f with
      | ackTimeout => exact (left_when (m.has .ackTimeout) (toNat_cut (by decide) 5 a.ackTimeout) :)
      | rmac47To32 => exact zero_rmac.1
      | rmac31To0 => exact zero_rmac.2
      | _ => rfl
    | nextSendPsn => exact toNat_cut32 24 a.sqPsn
    | retryCount => exact (left_when (m.has .retryCnt) (toNat_cut (by decide) 3 a.retryCnt) :)
    | rnrRetry => exact (left_when (m.has .rnrRetry) (toNat_cut (by decide) 3 a.rnrRetry) :)
    | minRnrNak => exact (left_when (m.has .minRnrTimer) (toNat_cut (by decide) 5 a.minRnrTimer) :)
    | rwe => exact left_rwe a
    | rae => exact left_rae a m
    | atomicMode => exact left_atomicMode a m
    | logSraMax => exact (left_when (m.has .maxQpRdAtomic) (toNat_log2 a.maxRdAtomic) :)
    | _ => rfl
  | _ => rfl

theorem rts2rts_left (mQpNum : BitVec 32) (roceVersion : Option (BitVec 8)) (n : ModifyQpField) :
    left (rts2rtsOps mQpNum a m roceVersion) n =
      cmdVal mQpNum
        { opcode := .rts2rts
          optParamMask := convertToOptParamMask m .rts2rts
          qpc :=
            { Qpc.zero with
              minRnrNak := if m.has .minRnrTimer then a.minRnrTimer.setWidth 5 else 0
              rwe := a.rwe
              rre := a.rre m
              rae := a.rae m
              atomicMode := a.atomicModeBits m
              primaryAddressPath :=
                { Ads.zero with
                  srcAddrIndex := if m.has .ahAttr then a.ahAttr.sgidIndex else 0
                  dscp :=
                    if roceVersion.any fun v => 2#8 ≤ v then
                      (a.ahAttr.trafficClass >>> 2).setWidth 6 else 0 } } } n %
        2 ^ (modifyQpIn.field n).sz := by
  cases n with
  | qpc f =>
    cases f with
    | primaryAddressPath f =>
      cases f with
      | srcAddrIndex =>
        exact (left_when (m.has .ahAttr) (toNat_cut (by decide) 8 a.ahAttr.sgidIndex) :)
      | dscp => exact (left_dscp a roceVersion :)
      | rmac47To32 => exact zero_rmac.1
      | rmac31To0 => exact zero_rmac.2
      | _ => rfl
    | minRnrNak => exact (left_when (m.has .minRnrTimer) (toNat_cut (by decide) 5 a.minRnrTimer) :)
    | rwe => exact left_rwe a
    | rre => exact left_rre a m
    | rae => exact left_rae a m
    | atomicMode => exact left_atomicMode a m
    | _ => rfl
  | _ => rfl

theorem map_guard {b : Bool} {ops : List (DevxOp ModifyQpField)} {c : ModifyCmd}
    {mQpNum : BitVec 32}
    (h : b = true → (DevxOp.exec modifyQpIn ops fun _ => 0).bits = message mQpNum c) :
    ((if !b then .error .invalidValue else .ok ops : Except VerbsError _).map fun ops =>
        (DevxOp.exec modifyQpIn ops fun _ => 0).bits) =
      (if !b then .error .invalidValue else .ok c : Except VerbsError _).map (message mQpNum) := by
  cases b with
  | false => rfl
  | true => exact congrArg Except.ok (h rfl)

/-- The two commands that carry no context. -/
theorem short_left (t : Move) (mQpNum : BitVec 32) (n : ModifyQpField) :
    left (shortOps t mQpNum) n =
      cmdVal mQpNum { opcode := t, optParamMask := 0, qpc := .zero } n %
        2 ^ (modifyQpIn.field n).sz := by
  cases n with
  | qpc f =>
    cases f with
    | primaryAddressPath f =>
      cases f with
      | rmac47To32 => exact zero_rmac.1
      | rmac31To0 => exact zero_rmac.2
      | _ => rfl
    | _ => rfl
  | _ => rfl

/-- **The messages of the transition functions** are those of the commands, for every record, mask
and outcome of the calls on the way. -/
theorem commandMsg_eq (dev : DeviceAttr) (env : ModifyEnv) (a : QpAttr) (m : AttrMask)
    (mQpNum : BitVec 32) (t : Move) :
    commandMsg dev env a m mQpNum t = (t.cmd dev env a m).map (message mQpNum) := by
  have hif : ∀ {b : Bool} {x y : Except VerbsError ModifyCmd}, b = true →
      (if !b then x else y) = y := fun hb => by rw [hb]; rfl
  unfold commandMsg
  cases t with
  | rst2init => exact map_guard fun hv => exec_eq_message rfl (rst2init_left (hif hv) mQpNum)
  | init2init => exact map_guard fun hv => exec_eq_message rfl (init2init_left (hif hv) mQpNum)
  | rtr2rts => exact map_guard fun hv => exec_eq_message rfl (rtr2rts_left (hif hv) mQpNum)
  | qp2err => exact map_guard fun _ => exec_eq_message rfl (short_left .qp2err mQpNum)
  | qp2rst => exact map_guard fun _ => exec_eq_message rfl (short_left .qp2rst mQpNum)
  | init2rtr =>
    unfold statements Move.cmd init2rtrCmd
    cases isInit2rtrAttrsValid m with
    | false => rfl
    | true =>
      cases m.has .ahAttr && !a.ahAttrEnabled with
      | true => rfl
      | false =>
        cases convertDocaMtuSizeToPrmMtuSize a.pathMtu with
        | error e => rfl
        | ok prmMtu =>
          cases callIf a.ahAttr.isRoce env.remoteMac with
          | error e => rfl
          | ok mac =>
            cases callIf dev.portTypeEth env.roceVersion with
            | error e => rfl
            | ok roceVersion =>
              exact congrArg Except.ok (exec_eq_message rfl
                (init2rtr_left mQpNum env.udpSport prmMtu mac roceVersion))
  | rts2rts =>
    unfold statements Move.cmd rts2rtsCmd
    cases isRts2rtsAttrsValid m with
    | false => rfl
    | true =>
      cases m.has .ahAttr && !a.ahAttrEnabled with
      | true => rfl
      | false =>
        cases callIf (m.has .ahAttr && (dev.isRts2rtsQpDscpSupported && dev.portTypeEth))
          env.roceVersion with
        | error e => rfl
        | ok roceVersion =>
          exact congrArg Except.ok (exec_eq_message rfl (rts2rts_left mQpNum roceVersion))

end Gpunetio.Prm
