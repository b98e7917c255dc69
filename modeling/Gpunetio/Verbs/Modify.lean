import Gpunetio.Verbs.Attr
import Gpunetio.Lib.Trace

/-!
# `doca_verbs_qp_modify`

The host keeps the state of a queue pair in `m_current_state` and trusts the caller where the
caller names a current state. It picks a transition, checks the attributes, encodes a command with
a queue pair context, and moves `m_current_state` once the driver has passed the command on.

* `Qpc`, `ModifyCmd`: the context fields that the commands carry, each of its width, and a command;
* `rst2initCmd` to `qp2rstCmd`: the encoders of the seven transition functions;
* `Device`: what is relied on in the hardware, a transition is taken only in its source state;
* `modify`: the call, with the transition that `dispatch` picks;
* **`modify_keeps_step`**: over any sequence of calls host and device agree on the state, a
  successful call is one of the seven transitions with a legal mask, and a failing one does nothing.
-/

namespace Gpunetio.Verbs

/-- `doca_error_t`, as far as these calls return it. -/
inductive VerbsError
  | invalidValue
  | driver
  | notFound
  | unexpected
deriving DecidableEq, Repr

/-- `mlx5_ifc_ads_bits`, as far as the commands write it; the two parts of `rmac` are one field. -/
structure Ads where
  pkeyIndex : BitVec 16
  grh : BitVec 1
  rlid : BitVec 16
  ackTimeout : BitVec 5
  srcAddrIndex : BitVec 8
  statRate : BitVec 4
  hopLimit : BitVec 8
  tclass : BitVec 8
  rgidRip : BitVec 128
  dscp : BitVec 6
  udpSport : BitVec 16
  sl : BitVec 4
  vhcaPortNum : BitVec 8
  rmac : BitVec 48
deriving DecidableEq, Repr

/-- `mlx5_ifc_qpc_bits`, as far as the commands write it or a query reads it. -/
structure Qpc where
  state : BitVec 4
  pmState : BitVec 2
  mtu : BitVec 3
  logMsgMax : BitVec 5
  counterSetId : BitVec 8
  remoteQpn : BitVec 24
  primaryAddressPath : Ads
  logAckReqFreq : BitVec 4
  logSraMax : BitVec 3
  retryCount : BitVec 3
  rnrRetry : BitVec 3
  nextSendPsn : BitVec 24
  logRraMax : BitVec 3
  atomicMode : BitVec 4
  rre : BitVec 1
  rwe : BitVec 1
  rae : BitVec 1
  minRnrNak : BitVec 5
  nextRcvPsn : BitVec 24
deriving DecidableEq, Repr

/-- The zeroed path. -/
def Ads.zero : Ads :=
  { pkeyIndex := 0, grh := 0, rlid := 0, ackTimeout := 0, srcAddrIndex := 0, statRate := 0
    hopLimit := 0, tclass := 0, rgidRip := 0, dscp := 0, udpSport := 0, sl := 0, vhcaPortNum := 0
    rmac := 0 }

/-- The zeroed context that every encoder starts from. -/
def Qpc.zero : Qpc :=
  { state := 0, pmState := 0, mtu := 0, logMsgMax := 0, counterSetId := 0, remoteQpn := 0
    primaryAddressPath := .zero, logAckReqFreq := 0, logSraMax := 0, retryCount := 0, rnrRetry := 0
    nextSendPsn := 0, logRraMax := 0, atomicMode := 0, rre := 0, rwe := 0, rae := 0, minRnrNak := 0
    nextRcvPsn := 0 }

/-- A modify command on the queue pair: `opcode`, `opt_param_mask` and `qpc`. -/
structure ModifyCmd where
  opcode : Move
  optParamMask : BitVec 32
  qpc : Qpc
deriving DecidableEq, Repr

/-! ## The optional parameters -/

/-- `PRIV_DOCA_MLX5_QP_OPT_*`. -/
inductive OptParam
  | rre
  | rae
  | rwe
  | pkeyIndex
  | minRnrNak
  | portNum
  | dscp
  | sgidIndex
deriving DecidableEq, Repr

/-- The position of the bit. -/
def OptParam.shift : OptParam → ℕ
  | .rre => 1
  | .rae => 2
  | .rwe => 3
  | .pkeyIndex => 4
  | .minRnrNak => 6
  | .portNum => 16
  | .dscp => 17
  | .sgidIndex => 23

/-- `valid_opt_mask`. -/
def validOptMask : Move → AttrMask
  | .init2init =>
    AttrBit.mask .allowRemoteWrite ||| AttrBit.mask .allowRemoteRead |||
      AttrBit.mask .atomicMode ||| AttrBit.mask .pkeyIndex ||| AttrBit.mask .portNum
  | .init2rtr =>
    AttrBit.mask .allowRemoteWrite ||| AttrBit.mask .allowRemoteRead |||
      AttrBit.mask .atomicMode ||| AttrBit.mask .pkeyIndex
  | .rtr2rts =>
    AttrBit.mask .allowRemoteWrite ||| AttrBit.mask .atomicMode ||| AttrBit.mask .minRnrTimer
  | .rts2rts =>
    AttrBit.mask .allowRemoteWrite ||| AttrBit.mask .allowRemoteRead |||
      AttrBit.mask .atomicMode ||| AttrBit.mask .ahAttr ||| AttrBit.mask .minRnrTimer
  | _ => 0#32

/-- `mlx5_opt_mask |= p`, where the attribute is in the mask. -/
def optBit (m : AttrMask) (a : AttrBit) (p : OptParam) : BitVec 32 :=
  if m.has a then 1#32 <<< p.shift else 0#32

/-- `convert_doca_verbs_qp_attr_mask_to_legal_mlx5_qp_opt_param_mask`. -/
def convertToOptParamMask (m : AttrMask) (t : Move) : BitVec 32 :=
  let m := m &&& validOptMask t
  optBit m .pkeyIndex .pkeyIndex ||| optBit m .minRnrTimer .minRnrNak |||
    optBit m .portNum .portNum ||| optBit m .ahAttr .sgidIndex ||| optBit m .ahAttr .dscp |||
    optBit m .allowRemoteWrite .rwe ||| optBit m .allowRemoteRead .rre |||
    optBit m .atomicMode .rae

/-! ## The encoders

A `DEVX_SET` into the zeroed context gives its field the low bits of the value, under the
condition that guards it. -/

/-- What the calls out of a modify give it. -/
structure ModifyEnv where
  remoteMac : Except VerbsError (BitVec 48)
  roceVersion : Except VerbsError (BitVec 8)
  udpSport : BitVec 16
  objModify : Option VerbsError

/-- `rwe` is written wherever the attribute is 1, whatever the mask says. -/
def QpAttr.rwe (a : QpAttr) : BitVec 1 := if a.allowRemoteWrite = 1 then 1 else 0

/-- `rre`. -/
def QpAttr.rre (a : QpAttr) (m : AttrMask) : BitVec 1 :=
  if m.has .allowRemoteRead ∧ a.allowRemoteRead = 1 then 1 else 0

/-- `rae`. -/
def QpAttr.rae (a : QpAttr) (m : AttrMask) : BitVec 1 :=
  if m.has .atomicMode ∧ a.atomicMode ≠ 0 then 1 else 0

/-- `atomic_mode`. -/
def QpAttr.atomicModeBits (a : QpAttr) (m : AttrMask) : BitVec 4 :=
  if m.has .atomicMode ∧ a.atomicMode ≠ 0 then a.atomicMode.setWidth 4 else 0

/-- `doca_internal_utils_log2`, which takes 0 to 0. -/
def docaInternalUtilsLog2 (x : BitVec 8) : ℕ := if x = 0 then 0 else x.toNat.log2

/-- `convert_doca_mtu_size_to_prm_mtu_size`. -/
def convertDocaMtuSizeToPrmMtuSize : Option MtuSize → Except VerbsError (BitVec 3)
  | some .bytes256 => .ok 1
  | some .bytes512 => .ok 2
  | some .bytes1k => .ok 3
  | some .bytes2k => .ok 4
  | some .bytes4k => .ok 5
  | some .rawEthernet => .ok 7
  | none => .error .invalidValue

/-- A call that is made only in some cases. -/
def callIf {α : Type} (b : Bool) (x : Except VerbsError α) : Except VerbsError (Option α) :=
  if b then some <$> x else .ok none

/-- `rst2init`. -/
def rst2initCmd (a : QpAttr) (m : AttrMask) : Except VerbsError ModifyCmd :=
  if !isRst2initAttrsValid m then .error .invalidValue
  else .ok
    { opcode := .rst2init
      optParamMask := 0
      qpc :=
        { Qpc.zero with
          primaryAddressPath :=
            { Ads.zero with
              vhcaPortNum := a.portNum.setWidth 8
              pkeyIndex := a.pkeyIndex }
          pmState := 3
          counterSetId := a.counterSetId.setWidth 8
          rwe := a.rwe
          rre := a.rre m
          rae := a.rae m
          atomicMode := a.atomicModeBits m } }

/-- `init2init`. -/
def init2initCmd (a : QpAttr) (m : AttrMask) : Except VerbsError ModifyCmd :=
  if !isInit2initAttrsValid m then .error .invalidValue
  else .ok
    { opcode := .init2init
      optParamMask := convertToOptParamMask m .init2init
      qpc :=
        { Qpc.zero with
          primaryAddressPath :=
            { Ads.zero with
              vhcaPortNum := a.portNum.setWidth 8
              pkeyIndex := a.pkeyIndex }
          rwe := a.rwe
          rre := a.rre m
          rae := a.rae m
          atomicMode := a.atomicModeBits m } }

/-- The address type is one of the two InfiniBand ones. -/
def AhAttr.isIb (h : AhAttr) : Bool := h.addrType == some .ibGrh || h.addrType == some .ibNoGrh

/-- The address type is one of the two RoCE ones. -/
def AhAttr.isRoce (h : AhAttr) : Bool := h.addrType == some .ipv4 || h.addrType == some .ipv6

/-- The path of `init2rtr`, with the remote MAC of a RoCE address and the RoCE version of an
Ethernet port. -/
def init2rtrPath (a : QpAttr) (udpSport : BitVec 16) (mac : Option (BitVec 48))
    (roceVersion : Option (BitVec 8)) : Ads :=
  let h := a.ahAttr
  let rocev2 := roceVersion.any fun v => 2#8 ≤ v
  { ackTimeout := 0
    tclass := if h.isIb then h.trafficClass else 0
    rlid := if h.isIb then h.dlid.setWidth 16 else 0
    sl := if h.isIb then h.sl.setWidth 4 else 0
    statRate := h.staticRate.setWidth 4
    rgidRip := if h.addrType ≠ some .ibNoGrh then h.gid else 0
    hopLimit := if h.addrType ≠ some .ibNoGrh then h.hopLimit else 0
    srcAddrIndex := if h.addrType ≠ some .ibNoGrh then h.sgidIndex else 0
    rmac := mac.getD 0
    grh := if h.addrType = some .ibGrh then 1 else 0
    udpSport := if rocev2 then udpSport else 0
    dscp := if rocev2 then (h.trafficClass >>> 2).setWidth 6 else 0
    pkeyIndex := a.pkeyIndex
    vhcaPortNum := 0 }

/-- The context of `init2rtr`. -/
def init2rtrQpc (a : QpAttr) (m : AttrMask) (prmMtu : BitVec 3) (path : Ads) : Qpc :=
  { Qpc.zero with
    nextRcvPsn := a.rqPsn.setWidth 24
    remoteQpn := a.destQpNum.setWidth 24
    logMsgMax := 30
    mtu := prmMtu
    minRnrNak := if m.has .minRnrTimer then a.minRnrTimer.setWidth 5 else 0
    primaryAddressPath := path
    rwe := a.rwe
    rre := a.rre m
    rae := a.rae m
    atomicMode := a.atomicModeBits m
    logRraMax :=
      if m.has .maxDestRdAtomic then
        BitVec.ofNat 3 (docaInternalUtilsLog2 a.maxDestRdAtomic) else 0 }

/-- `init2rtr`. -/
def init2rtrCmd (dev : DeviceAttr) (env : ModifyEnv) (a : QpAttr) (m : AttrMask) :
    Except VerbsError ModifyCmd :=
  if !isInit2rtrAttrsValid m then .error .invalidValue
  else if m.has .ahAttr && !a.ahAttrEnabled then .error .invalidValue
  else do
    let prmMtu ← convertDocaMtuSizeToPrmMtuSize a.pathMtu
    let mac ← callIf a.ahAttr.isRoce env.remoteMac
    let roceVersion ← callIf dev.portTypeEth env.roceVersion
    pure
      { opcode := .init2rtr
        optParamMask := convertToOptParamMask m .init2rtr
        qpc := init2rtrQpc a m prmMtu (init2rtrPath a env.udpSport mac roceVersion) }

/-- `rtr2rts`. -/
def rtr2rtsCmd (a : QpAttr) (m : AttrMask) : Except VerbsError ModifyCmd :=
  if !isRtr2rtsAttrsValid m then .error .invalidValue
  else .ok
    { opcode := .rtr2rts
      optParamMask := convertToOptParamMask m .rtr2rts
      qpc :=
        { Qpc.zero with
          nextSendPsn := a.sqPsn.setWidth 24
          primaryAddressPath :=
            { Ads.zero with
              ackTimeout := if m.has .ackTimeout then a.ackTimeout.setWidth 5 else 0 }
          retryCount := if m.has .retryCnt then a.retryCnt.setWidth 3 else 0
          rnrRetry := if m.has .rnrRetry then a.rnrRetry.setWidth 3 else 0
          minRnrNak := if m.has .minRnrTimer then a.minRnrTimer.setWidth 5 else 0
          rwe := a.rwe
          rae := a.rae m
          atomicMode := a.atomicModeBits m
          logSraMax :=
            if m.has .maxQpRdAtomic then
              BitVec.ofNat 3 (docaInternalUtilsLog2 a.maxRdAtomic) else 0
          logAckReqFreq := 0 } }

/-- `rts2rts`. -/
def rts2rtsCmd (dev : DeviceAttr) (env : ModifyEnv) (a : QpAttr) (m : AttrMask) :
    Except VerbsError ModifyCmd :=
  if !isRts2rtsAttrsValid m then .error .invalidValue
  else if m.has .ahAttr && !a.ahAttrEnabled then .error .invalidValue
  else do
    let roceVersion ←
      callIf (m.has .ahAttr && (dev.isRts2rtsQpDscpSupported && dev.portTypeEth)) env.roceVersion
    pure
      { opcode := .rts2rts
        optParamMask := convertToOptParamMask m .rts2rts
        qpc :=
          { Qpc.zero with
            minRnrNak := if m.has .minRnrTimer then a.minRnrTimer.setWidth 5 else 0
            rwe := a.rwe
            rre := a.rre m
            rae := a.rae m
            atomicMode := a.atomicModeBits m
            primaryAddressPath :=
              { Ads.zero with
                srcAddrIndex := if m.has .ahAttr then a.ahAttr.sgidIndex else 0
                dscp :=
                  if roceVersion.any fun v => 2#8 ≤ v then
                    (a.ahAttr.trafficClass >>> 2).setWidth 6 else 0 } } }

/-- `qp2err`. -/
def qp2errCmd (m : AttrMask) : Except VerbsError ModifyCmd :=
  if !isX2errAttrsValid m then .error .invalidValue
  else .ok { opcode := .qp2err, optParamMask := 0, qpc := .zero }

/-- `qp2rst`. -/
def qp2rstCmd (m : AttrMask) : Except VerbsError ModifyCmd :=
  if !isX2rstAttrsValid m then .error .invalidValue
  else .ok { opcode := .qp2rst, optParamMask := 0, qpc := .zero }

/-- The encoder of each transition. -/
def Move.cmd (dev : DeviceAttr) (env : ModifyEnv) (a : QpAttr) (m : AttrMask) :
    Move → Except VerbsError ModifyCmd
  | rst2init => rst2initCmd a m
  | init2init => init2initCmd a m
  | init2rtr => init2rtrCmd dev env a m
  | rtr2rts => rtr2rtsCmd a m
  | rts2rts => rts2rtsCmd dev env a m
  | qp2err => qp2errCmd m
  | qp2rst => qp2rstCmd m

/-! ## The call -/

/-- The hardware behind a queue pair: a command is refused, and nothing happens, or it is taken in
the source state of its transition and leads to the target state. -/
structure Device (D : Type*) where
  qpState : D → QpState
  exec : D → ModifyCmd → Option D
  exec_from : ∀ {d c d'}, exec d c = some d' → c.opcode.From (qpState d)
  exec_target : ∀ {d c d'}, exec d c = some d' → qpState d' = c.opcode.target

/-- `doca_verbs_qp_open`, as far as a modify changes it. -/
structure QpOpen where
  addrType : Option AddrType
  currentState : QpState
deriving DecidableEq, Repr

/-- The host's object and the hardware. -/
structure ModifySys (D : Type*) where
  qp : QpOpen
  hw : D

/-- What a successful transition leaves in the host's object. -/
def Move.settle (a : QpAttr) (t : Move) (qp : QpOpen) : QpOpen :=
  match t with
  | init2rtr => { addrType := a.ahAttr.addrType, currentState := .rtr }
  | t => { qp with currentState := t.target }

variable {D : Type*} (dev : DeviceAttr) (hw : Device D)

/-- A transition function: encode, pass on, and only then settle. `none` is `DOCA_SUCCESS`. -/
def transition (env : ModifyEnv) (a : QpAttr) (m : AttrMask) (s : ModifySys D) (t : Move) :
    Option VerbsError × ModifySys D :=
  match t.cmd dev env a m with
  | .error e => (some e, s)
  | .ok c =>
    match env.objModify with
    | some e => (some e, s)
    | none =>
      match hw.exec s.hw c with
      | none => (some .driver, s)
      | some d => (none, { qp := t.settle a s.qp, hw := d })

/-- One call of `doca_verbs_qp_modify`. -/
structure ModifyCall where
  qpAttr : Option QpAttr
  attrMask : AttrMask
  env : ModifyEnv

/-- The current state that the call goes by. -/
def currentStateOf (tracked : QpState) (a : QpAttr) (m : AttrMask) : Option QpState :=
  if !m.has .currentState then some tracked else a.currentState

/-- The next state that the call asks for. -/
def nextStateOf (tracked : QpState) (a : QpAttr) (m : AttrMask) : Option QpState :=
  if !m.has .nextState then currentStateOf tracked a m else a.nextState

/-- The switch over the next state. -/
def dispatch (currentState : Option QpState) : Option QpState → Option Move
  | some .rst => some .qp2rst
  | some .init =>
    if currentState = some .rst then some .rst2init
    else if currentState = some .init then some .init2init
    else none
  | some .rtr => if currentState = some .init then some .init2rtr else none
  | some .rts =>
    if currentState = some .rtr then some .rtr2rts
    else if currentState = some .rts then some .rts2rts
    else none
  | some .err => some .qp2err
  | none => none

/-- `doca_verbs_qp_modify` on an open queue pair. -/
def modify (s : ModifySys D) (c : ModifyCall) : Option VerbsError × ModifySys D :=
  match c.qpAttr with
  | none => (some .invalidValue, s)
  | some a =>
    match a.validate dev c.attrMask with
    | (false, _) => (some .invalidValue, s)
    | (true, a) =>
      match dispatch (currentStateOf s.qp.currentState a c.attrMask)
          (nextStateOf s.qp.currentState a c.attrMask) with
      | none => (some .invalidValue, s)
      | some t => transition dev hw c.env a c.attrMask s t

/-! ## What a call can do -/

theorem ok_of_guard {b : Bool} {e : VerbsError} {x : Except VerbsError ModifyCmd} {c : ModifyCmd}
    (h : (if !b then .error e else x) = .ok c) : b ∧ x = .ok c := by
  cases b with
  | false => cases h
  | true => exact ⟨rfl, h⟩

theorem ok_of_bind {α β : Type} {x : Except VerbsError α} {f : α → Except VerbsError β} {b : β}
    (h : x >>= f = .ok b) : ∃ a, x = .ok a ∧ f a = .ok b := by
  cases x with
  | error e => cases h
  | ok a => exact ⟨a, rfl, h⟩

/-- A successful `init2rtr` has found the address handle set and converted the MTU. -/
theorem init2rtrCmd_ok {dev : DeviceAttr} {env : ModifyEnv} {a : QpAttr} {m : AttrMask}
    {c : ModifyCmd} (h : init2rtrCmd dev env a m = .ok c) :
    isInit2rtrAttrsValid m ∧ ∃ prmMtu mac roceVersion,
      convertDocaMtuSizeToPrmMtuSize a.pathMtu = .ok prmMtu ∧
        c = { opcode := .init2rtr
              optParamMask := convertToOptParamMask m .init2rtr
              qpc := init2rtrQpc a m prmMtu (init2rtrPath a env.udpSport mac roceVersion) } := by
  obtain ⟨hv, h⟩ := ok_of_guard h
  split at h
  · cases h
  · obtain ⟨prmMtu, hp, h⟩ := ok_of_bind h
    obtain ⟨mac, -, h⟩ := ok_of_bind h
    obtain ⟨roceVersion, -, h⟩ := ok_of_bind h
    cases h
    exact ⟨hv, prmMtu, mac, roceVersion, hp, rfl⟩

theorem Move.cmd_ok {dev : DeviceAttr} {env : ModifyEnv} {a : QpAttr} {m : AttrMask} {t : Move}
    {c : ModifyCmd} (h : t.cmd dev env a m = .ok c) : c.opcode = t ∧ t.MaskOk m := by
  rw [← t.attrsValid_iff]
  cases t with
  | init2rtr =>
    obtain ⟨hv, p, mac, v, -, rfl⟩ := init2rtrCmd_ok h
    exact ⟨rfl, hv⟩
  | rts2rts =>
    obtain ⟨hv, h⟩ := ok_of_guard h
    split at h
    · cases h
    · obtain ⟨v, -, h⟩ := ok_of_bind h
      cases h
      exact ⟨rfl, hv⟩
  | _ =>
    obtain ⟨hv, h⟩ := ok_of_guard h
    cases h
    exact ⟨rfl, hv⟩

theorem Move.settle_currentState (a : QpAttr) (t : Move) (qp : QpOpen) :
    (t.settle a qp).currentState = t.target := by
  cases t <;> rfl

/-- What a successful transition function has done. -/
theorem transition_ok {dev : DeviceAttr} {hw : Device D} {env : ModifyEnv} {a : QpAttr}
    {m : AttrMask} {s s' : ModifySys D} {t : Move}
    (h : transition dev hw env a m s t = (none, s')) :
    ∃ c, t.cmd dev env a m = .ok c ∧ hw.exec s.hw c = some s'.hw ∧ s'.qp = t.settle a s.qp := by
  unfold transition at h
  split at h
  · cases h
  · split at h
    · cases h
    · split at h
      · cases h
      · cases h
        exact ⟨_, ‹_›, ‹_›, rfl⟩

theorem transition_error {dev : DeviceAttr} {hw : Device D} {env : ModifyEnv} {a : QpAttr}
    {m : AttrMask} {s s' : ModifySys D} {t : Move} {e : VerbsError}
    (h : transition dev hw env a m s t = (some e, s')) : s' = s := by
  unfold transition at h
  split at h
  · exact (congrArg Prod.snd h).symm
  · split at h
    · exact (congrArg Prod.snd h).symm
    · split at h
      · exact (congrArg Prod.snd h).symm
      · cases h

theorem dispatch_target {cur next : Option QpState} {t : Move} (h : dispatch cur next = some t) :
    next = some t.target := by
  unfold dispatch at h
  split at h <;> (try split at h) <;> (try split at h) <;> cases h <;> rfl

/-- The value checks touch neither of the two states. -/
theorem validate_states {a a' : QpAttr} {m : AttrMask} {b : Bool}
    (h : a.validate dev m = (b, a')) :
    a'.currentState = a.currentState ∧ a'.nextState = a.nextState := by
  have ha : a' = (a.validate dev m).2 := by rw [h]
  subst ha
  unfold QpAttr.validate
  refine ⟨?_, ?_⟩ <;> dsimp only <;> split_ifs <;> rfl

/-- What a successful call has done. -/
theorem modify_ok {dev : DeviceAttr} {hw : Device D} {s s' : ModifySys D} {c : ModifyCall}
    (h : modify dev hw s c = (none, s')) :
    ∃ a a' t, c.qpAttr = some a ∧ a.validate dev c.attrMask = (true, a') ∧
      nextStateOf s.qp.currentState a c.attrMask = some t.target ∧
      transition dev hw c.env a' c.attrMask s t = (none, s') := by
  unfold modify at h
  split at h
  · cases h
  · rename_i a ha
    split at h
    · cases h
    · rename_i a' hv
      split at h
      · cases h
      · rename_i t ht
        refine ⟨a, a', t, ha, hv, ?_, h⟩
        have hs := validate_states dev hv
        rw [← dispatch_target ht]
        simp only [nextStateOf, currentStateOf, hs.1, hs.2]

theorem modify_error {dev : DeviceAttr} {hw : Device D} {s s' : ModifySys D} {c : ModifyCall}
    {e : VerbsError} (h : modify dev hw s c = (some e, s')) : s' = s := by
  unfold modify at h
  split at h
  · exact (congrArg Prod.snd h).symm
  · split at h
    · exact (congrArg Prod.snd h).symm
    · split at h
      · exact (congrArg Prod.snd h).symm
      · exact transition_error h

/-! ## Sequences of calls -/

/-- Host and device agree on the state. -/
def ModifySys.InStep (s : ModifySys D) : Prop := s.qp.currentState = hw.qpState s.hw

/-- A created queue pair: both states are `RST`. -/
structure ModifySys.Created (s : ModifySys D) : Prop where
  qp : s.qp.currentState = .rst
  hw : hw.qpState s.hw = .rst

/-- The system after a call. -/
def modifyStep (s : ModifySys D) (c : ModifyCall) : ModifySys D := (modify dev hw s c).2

/-- A successful call takes a transition from the state the device is in to the state the caller
asks for, with a legal mask; a failing call leaves host and device as they are. -/
structure CallOk (s : ModifySys D) (c : ModifyCall) : Prop where
  success : (modify dev hw s c).1 = none → ∃ (a : QpAttr) (t : Move), c.qpAttr = some a ∧
    t.From (hw.qpState s.hw) ∧ nextStateOf s.qp.currentState a c.attrMask = some t.target ∧
    t.MaskOk c.attrMask ∧ hw.qpState (modifyStep dev hw s c).hw = t.target
  failure : ∀ e, (modify dev hw s c).1 = some e → modifyStep dev hw s c = s

theorem callOk (s : ModifySys D) (c : ModifyCall) : CallOk dev hw s c where
  success h := by
    obtain ⟨a, a', t, ha, -, hn, ht⟩ := modify_ok (Prod.ext h rfl)
    obtain ⟨cmd, hc, he, -⟩ := transition_ok ht
    obtain ⟨hop, hm⟩ := Move.cmd_ok hc
    subst hop
    exact ⟨a, cmd.opcode, ha, hw.exec_from he, hn, hm, hw.exec_target he⟩
  failure e h := modify_error (Prod.ext h rfl)

theorem inStep_modifyStep {s : ModifySys D} (hs : s.InStep hw) (c : ModifyCall) :
    (modifyStep dev hw s c).InStep hw := by
  cases h : (modify dev hw s c).1 with
  | some e =>
    rw [(callOk dev hw s c).failure e h]
    exact hs
  | none =>
    obtain ⟨a, a', t, -, -, -, ht⟩ := modify_ok (Prod.ext h rfl)
    obtain ⟨cmd, hc, he, hq⟩ := transition_ok ht
    unfold ModifySys.InStep modifyStep
    rw [hq, Move.settle_currentState, hw.exec_target he, (Move.cmd_ok hc).1]

theorem inStep_run {s : ModifySys D} (hs : s.InStep hw) (cs : List ModifyCall) :
    (Trace.run (modifyStep dev hw) s cs).InStep hw := by
  induction cs generalizing s with
  | nil => exact hs
  | cons c cs ih => exact ih (inStep_modifyStep dev hw hs c)

/-- **The state machine.** From a created queue pair on, any sequence of calls leaves the tracked
state equal to the device's, and whatever call comes next, it succeeds only as one of the seven
transitions with a legal mask and fails without effect. -/
theorem modify_keeps_step {s : ModifySys D} (h : s.Created hw) (cs : List ModifyCall) :
    (Trace.run (modifyStep dev hw) s cs).InStep hw ∧
      ∀ c, CallOk dev hw (Trace.run (modifyStep dev hw) s cs) c :=
  ⟨inStep_run dev hw (h.qp.trans h.hw.symm) cs, callOk dev hw _⟩

/-- A device that only has the state. -/
def Device.plain : Device QpState where
  qpState := id
  exec d c := if c.opcode.From d then some c.opcode.target else none
  exec_from h := by
    split at h
    · assumption
    · cases h
  exec_target h := by
    split at h
    · cases h
      rfl
    · cases h

/-- The record of a caller that brings a queue pair to this state over this address. -/
def bringUpAttr (h : AhAttr) (t : QpState) : QpAttr :=
  { QpAttr.create with nextState := some t, ahAttr := h, ahAttrEnabled := true, portNum := 1 }

/-- What the calls out of a modify give it, where none of them fails. -/
def ModifyEnv.quiet : ModifyEnv :=
  { remoteMac := .ok 0, roceVersion := .ok 2, udpSport := 0xc000, objModify := none }

/-- The call to `INIT`. -/
def initCall (h : AhAttr) : ModifyCall :=
  { qpAttr := some (bringUpAttr h .init)
    attrMask := orMask [.nextState, .pkeyIndex, .portNum, .allowRemoteWrite, .allowRemoteRead]
    env := .quiet }

/-- The call to `RTR`. -/
def rtrCall (h : AhAttr) : ModifyCall :=
  { qpAttr := some (bringUpAttr h .rtr)
    attrMask := orMask [.nextState, .rqPsn, .destQpNum, .pathMtu, .ahAttr, .minRnrTimer]
    env := .quiet }

/-- The call to `RTS`. -/
def rtsCall (h : AhAttr) : ModifyCall :=
  { qpAttr := some (bringUpAttr h .rts)
    attrMask := orMask [.nextState, .sqPsn, .ackTimeout, .retryCnt, .rnrRetry]
    env := .quiet }

/-- A device with one port, one key and one address. -/
def DeviceAttr.single : DeviceAttr :=
  { gidTableSize := 1, maxPkeys := 1, physPortCnt := 1, portTypeEth := true
    isRts2rtsQpDscpSupported := true }

theorem modify_keeps_step_bringUp :
    let h := QpAttr.create.ahAttr
    let s : ModifySys QpState := { qp := { addrType := none, currentState := .rst }, hw := .rst }
    let s' := Trace.run (modifyStep .single .plain) s [initCall h, rtrCall h, rtsCall h]
    s'.hw = .rts ∧ s'.InStep .plain ∧ ∀ c, CallOk .single .plain s' c :=
  ⟨by decide, modify_keeps_step .single .plain ⟨rfl, rfl⟩ _⟩

end Gpunetio.Verbs
