import Gpunetio.Verbs.Modify

/-!
# Reading the context back

`doca_verbs_qp_query` asks the device for the context of a queue pair and takes it apart field by
field. Seen from the caller, what the modify calls have set should come back.

* `ModifyCmd.store`, `StoringDevice`: a device that takes from each command the fields that belong
  to its transition, and the optional ones that `opt_param_mask` names;
* `queryQp`: the decoder;
* `QpAttr.Fits`: the values under set bits fit the fields they are written to;
* `Returned`, `AhReturned`, `RoundTrip`: what should come back;
* **`query_roundTrip_iff`**: after a queue pair has been brought up, all of it comes back, except
  the traffic class of a RoCE address, which no command carries, and a read limit of 0, which
  becomes 1.
-/

namespace Gpunetio.Verbs

/-! ## The device -/

/-- `MLX5_QPC_STATE_*`. -/
def QpState.prm : QpState → BitVec 4
  | .rst => 0
  | .init => 1
  | .rtr => 2
  | .rts => 3
  | .err => 6

/-- The command names the optional parameter. -/
def ModifyCmd.opt (c : ModifyCmd) (p : OptParam) : Bool := c.optParamMask.getLsbD p.shift

/-- A field that is stored if the command names its optional parameter, and else kept. -/
def ModifyCmd.storeIf {w : ℕ} (c : ModifyCmd) (p : OptParam) (given kept : BitVec w) : BitVec w :=
  if c.opt p then given else kept

/-- The context after a command: each transition has its own fields, and optional ones. -/
def ModifyCmd.store (c : ModifyCmd) (q : Qpc) : Qpc :=
  let path := c.qpc.primaryAddressPath
  let q := { q with state := c.opcode.target.prm }
  match c.opcode with
  | .rst2init =>
    { q with
      pmState := c.qpc.pmState
      counterSetId := c.qpc.counterSetId
      rwe := c.qpc.rwe
      rre := c.qpc.rre
      rae := c.qpc.rae
      atomicMode := c.qpc.atomicMode
      primaryAddressPath :=
        { q.primaryAddressPath with
          vhcaPortNum := path.vhcaPortNum
          pkeyIndex := path.pkeyIndex } }
  | .init2init =>
    { q with
      rwe := c.storeIf .rwe c.qpc.rwe q.rwe
      rre := c.storeIf .rre c.qpc.rre q.rre
      rae := c.storeIf .rae c.qpc.rae q.rae
      atomicMode := c.storeIf .rae c.qpc.atomicMode q.atomicMode
      primaryAddressPath :=
        { q.primaryAddressPath with
          vhcaPortNum := c.storeIf .portNum path.vhcaPortNum q.primaryAddressPath.vhcaPortNum
          pkeyIndex := c.storeIf .pkeyIndex path.pkeyIndex q.primaryAddressPath.pkeyIndex } }
  | .init2rtr =>
    { q with
      nextRcvPsn := c.qpc.nextRcvPsn
      remoteQpn := c.qpc.remoteQpn
      logMsgMax := c.qpc.logMsgMax
      mtu := c.qpc.mtu
      minRnrNak := c.qpc.minRnrNak
      logRraMax := c.qpc.logRraMax
      rwe := c.storeIf .rwe c.qpc.rwe q.rwe
      rre := c.storeIf .rre c.qpc.rre q.rre
      rae := c.storeIf .rae c.qpc.rae q.rae
      atomicMode := c.storeIf .rae c.qpc.atomicMode q.atomicMode
      primaryAddressPath :=
        { path with
          ackTimeout := q.primaryAddressPath.ackTimeout
          vhcaPortNum := q.primaryAddressPath.vhcaPortNum
          pkeyIndex := c.storeIf .pkeyIndex path.pkeyIndex q.primaryAddressPath.pkeyIndex } }
  | .rtr2rts =>
    { q with
      nextSendPsn := c.qpc.nextSendPsn
      retryCount := c.qpc.retryCount
      rnrRetry := c.qpc.rnrRetry
      logSraMax := c.qpc.logSraMax
      logAckReqFreq := c.qpc.logAckReqFreq
      rwe := c.storeIf .rwe c.qpc.rwe q.rwe
      rae := c.storeIf .rae c.qpc.rae q.rae
      atomicMode := c.storeIf .rae c.qpc.atomicMode q.atomicMode
      minRnrNak := c.storeIf .minRnrNak c.qpc.minRnrNak q.minRnrNak
      primaryAddressPath := { q.primaryAddressPath with ackTimeout := path.ackTimeout } }
  | .rts2rts =>
    { q with
      rwe := c.storeIf .rwe c.qpc.rwe q.rwe
      rre := c.storeIf .rre c.qpc.rre q.rre
      rae := c.storeIf .rae c.qpc.rae q.rae
      atomicMode := c.storeIf .rae c.qpc.atomicMode q.atomicMode
      minRnrNak := c.storeIf .minRnrNak c.qpc.minRnrNak q.minRnrNak
      primaryAddressPath :=
        { q.primaryAddressPath with
          srcAddrIndex := c.storeIf .sgidIndex path.srcAddrIndex q.primaryAddressPath.srcAddrIndex
          dscp := c.storeIf .dscp path.dscp q.primaryAddressPath.dscp } }
  | .qp2err => q
  | .qp2rst => q

/-- A device that stores the contexts it is given. -/
structure StoringDevice (D : Type*) extends Device D where
  qpc : D → Qpc
  exec_qpc : ∀ {d c d'}, exec d c = some d' → qpc d' = c.store (qpc d)

/-! ## The decoder -/

/-- `convert_prm_qp_state_to_doca_verbs_qp_state`. -/
def convertPrmQpState (v : BitVec 4) : Except VerbsError QpState :=
  if v = 0 then .ok .rst
  else if v = 1 then .ok .init
  else if v = 2 then .ok .rtr
  else if v = 3 then .ok .rts
  else if v = 6 then .ok .err
  else .error .invalidValue

/-- `convert_prm_mtu_size_to_doca_verbs_mtu_size`. -/
def convertPrmMtuSize (v : BitVec 3) : Except VerbsError MtuSize :=
  if v = 1 then .ok .bytes256
  else if v = 2 then .ok .bytes512
  else if v = 3 then .ok .bytes1k
  else if v = 4 then .ok .bytes2k
  else if v = 5 then .ok .bytes4k
  else if v = 7 then .ok .rawEthernet
  else .error .invalidValue

/-- The address handle, filled in only if the record has one. -/
def Ads.toAhAttr (p : Ads) (addrType : Option AddrType) (h : AhAttr) : AhAttr :=
  { h with
    addrType := addrType
    dlid := p.rlid.setWidth 32
    sl := p.sl.setWidth 8
    sgidIndex := p.srcAddrIndex
    staticRate := p.statRate.setWidth 8
    hopLimit := p.hopLimit
    trafficClass := p.tclass
    gid := p.rgidRip }

/-- The record that a query fills in, with the state and MTU it has converted. -/
def decodeQpc (q : Qpc) (qp : QpOpen) (out : QpAttr) (state : QpState) (mtu : MtuSize) : QpAttr :=
  let path := q.primaryAddressPath
  { out with
    currentState := some state
    nextState := some state
    pathMtu := some mtu
    rqPsn := q.nextRcvPsn.setWidth 32
    sqPsn := q.nextSendPsn.setWidth 32
    destQpNum := q.remoteQpn.setWidth 32
    pkeyIndex := path.pkeyIndex
    portNum := path.vhcaPortNum.setWidth 16
    ackTimeout := path.ackTimeout.setWidth 8
    counterSetId := q.counterSetId.setWidth 32
    retryCnt := q.retryCount.setWidth 8
    rnrRetry := q.rnrRetry.setWidth 8
    minRnrTimer := q.minRnrNak.setWidth 8
    allowRemoteWrite := q.rwe.setWidth 32
    allowRemoteRead := q.rre.setWidth 32
    maxRdAtomic := BitVec.ofNat 8 (1 <<< q.logSraMax.toNat)
    maxDestRdAtomic := BitVec.ofNat 8 (1 <<< q.logRraMax.toNat)
    ahAttr := if out.ahAttrEnabled then path.toAhAttr qp.addrType out.ahAttr else out.ahAttr }

/-- `query_qp`, into the record `out`; `objQuery` says whether the driver has answered. -/
def queryQp (objQuery : Bool) (q : Qpc) (qp : QpOpen) (out : QpAttr) : Except VerbsError QpAttr :=
  if !objQuery then .error .driver
  else
    match convertPrmQpState q.state with
    | .error _ => .error .unexpected
    | .ok state =>
      match convertPrmMtuSize q.mtu with
      | .error _ => .error .unexpected
      | .ok mtu => .ok (decodeQpc q qp out state mtu)

/-! ## What should come back -/

/-- The values under set bits fit the fields they are written to. -/
structure QpAttr.Fits (a : QpAttr) (m : AttrMask) : Prop where
  rqPsn : m.has .rqPsn → a.rqPsn.toNat < 2 ^ 24
  sqPsn : m.has .sqPsn → a.sqPsn.toNat < 2 ^ 24
  destQpNum : m.has .destQpNum → a.destQpNum.toNat < 2 ^ 24
  portNum : m.has .portNum → a.portNum.toNat < 2 ^ 8
  ackTimeout : m.has .ackTimeout → a.ackTimeout.toNat < 2 ^ 5
  retryCnt : m.has .retryCnt → a.retryCnt.toNat < 2 ^ 3
  rnrRetry : m.has .rnrRetry → a.rnrRetry.toNat < 2 ^ 3
  minRnrTimer : m.has .minRnrTimer → a.minRnrTimer.toNat < 2 ^ 5
  allowRemoteWrite : m.has .allowRemoteWrite → a.allowRemoteWrite.toNat < 2 ^ 1
  allowRemoteRead : m.has .allowRemoteRead → a.allowRemoteRead.toNat < 2 ^ 1
  staticRate : m.has .ahAttr → a.ahAttr.staticRate.toNat < 2 ^ 4
  dlid : m.has .ahAttr → a.ahAttr.isIb → a.ahAttr.dlid.toNat < 2 ^ 16
  sl : m.has .ahAttr → a.ahAttr.isIb → a.ahAttr.sl.toNat < 2 ^ 4

/-- The value of an attribute in the last call that sets its bit. -/
def lastSet {α : Type*} (f : QpAttr → α) (b : AttrBit) (calls : List (QpAttr × AttrMask)) :
    Option α :=
  (calls.reverse.find? fun c => c.2.has b).map fun c => f c.1

/-- A value that the record should show if the attribute has been set. -/
def Returned {α : Type*} (f : QpAttr → α) (b : AttrBit) (calls : List (QpAttr × AttrMask))
    (out : QpAttr) : Prop :=
  ∀ v ∈ lastSet f b calls, f out = v

/-- The greatest power of two that is not above the value. -/
def RoundedDown (v r : BitVec 8) : Prop :=
  ∃ k, r.toNat = 2 ^ k ∧ 2 ^ k ≤ v.toNat ∧ v.toNat < 2 ^ (k + 1)

/-- The fields of an address handle that its type gives a meaning. -/
structure AhReturned (h out : AhAttr) : Prop where
  addrType : out.addrType = h.addrType
  staticRate : out.staticRate = h.staticRate
  dlid : h.isIb → out.dlid = h.dlid
  sl : h.isIb → out.sl = h.sl
  trafficClass : out.trafficClass = h.trafficClass
  gid : h.addrType ≠ some .ibNoGrh → out.gid = h.gid
  hopLimit : h.addrType ≠ some .ibNoGrh → out.hopLimit = h.hopLimit
  sgidIndex : h.addrType ≠ some .ibNoGrh → out.sgidIndex = h.sgidIndex

/-- Every attribute that the calls have set comes back; the address handle if the record of the
query has one. -/
structure RoundTrip (calls : List (QpAttr × AttrMask)) (out : QpAttr) : Prop where
  pathMtu : Returned (·.pathMtu) .pathMtu calls out
  rqPsn : Returned (·.rqPsn) .rqPsn calls out
  sqPsn : Returned (·.sqPsn) .sqPsn calls out
  destQpNum : Returned (·.destQpNum) .destQpNum calls out
  pkeyIndex : Returned (·.pkeyIndex) .pkeyIndex calls out
  portNum : Returned (·.portNum) .portNum calls out
  ackTimeout : Returned (·.ackTimeout) .ackTimeout calls out
  retryCnt : Returned (·.retryCnt) .retryCnt calls out
  rnrRetry : Returned (·.rnrRetry) .rnrRetry calls out
  minRnrTimer : Returned (·.minRnrTimer) .minRnrTimer calls out
  allowRemoteWrite : Returned (·.allowRemoteWrite) .allowRemoteWrite calls out
  allowRemoteRead : Returned (·.allowRemoteRead) .allowRemoteRead calls out
  maxRdAtomic : ∀ v ∈ lastSet (·.maxRdAtomic) .maxQpRdAtomic calls, RoundedDown v out.maxRdAtomic
  maxDestRdAtomic : ∀ v ∈ lastSet (·.maxDestRdAtomic) .maxDestRdAtomic calls,
    RoundedDown v out.maxDestRdAtomic
  ahAttr : out.ahAttrEnabled → ∀ h ∈ lastSet (·.ahAttr) .ahAttr calls, AhReturned h out.ahAttr

/-! ## The context of a queue pair that has been brought up -/

/-- The attribute behind an optional parameter. -/
def OptParam.attr : OptParam → AttrBit
  | .rre => .allowRemoteRead
  | .rae => .atomicMode
  | .rwe => .allowRemoteWrite
  | .pkeyIndex => .pkeyIndex
  | .minRnrNak => .minRnrTimer
  | .portNum => .portNum
  | .dscp => .ahAttr
  | .sgidIndex => .ahAttr

theorem AttrMask.has_and (m k : AttrMask) (a : AttrBit) :
    AttrMask.has (m &&& k) a = (m.has a && k.has a) := by
  simp only [AttrMask.has_eq_getLsbD, BitVec.getLsbD_and]

/-- A parameter is named where the attribute is set and optional in the transition. -/
theorem getLsbD_convertToOptParamMask (m : AttrMask) (t : Move) (p : OptParam) :
    (convertToOptParamMask m t).getLsbD p.shift =
      (m.has p.attr && (validOptMask t).has p.attr) := by
  have hbit : ∀ (k : AttrMask) (a : AttrBit) (p' : OptParam),
      (optBit k a p').getLsbD p.shift = (k.has a && decide (p.shift = p'.shift)) := by
    intro k a p'
    unfold optBit
    cases k.has a with
    | false => simp
    | true => cases p <;> cases p' <;> decide
  unfold convertToOptParamMask
  simp only [BitVec.getLsbD_or, hbit]
  rw [← AttrMask.has_and]
  cases p <;> simp [OptParam.shift, OptParam.attr]

theorem storeIf_convert {w : ℕ} {c : ModifyCmd} {m : AttrMask} {t : Move} {p : OptParam}
    (hc : c.optParamMask = convertToOptParamMask m t) (hp : (validOptMask t).has p.attr)
    (given kept : BitVec w) : c.storeIf p given kept = if m.has p.attr then given else kept := by
  unfold ModifyCmd.storeIf ModifyCmd.opt
  rw [hc, getLsbD_convertToOptParamMask, hp, Bool.and_true]

/-- What the device holds after the three transitions. -/
structure BroughtUp (a₁ a₂ a₃ : QpAttr) (m₁ m₂ m₃ : AttrMask) (q : Qpc) : Prop where
  state : q.state = 3
  mtu : convertDocaMtuSizeToPrmMtuSize a₂.pathMtu = .ok q.mtu
  nextRcvPsn : q.nextRcvPsn = a₂.rqPsn.setWidth 24
  nextSendPsn : q.nextSendPsn = a₃.sqPsn.setWidth 24
  remoteQpn : q.remoteQpn = a₂.destQpNum.setWidth 24
  retryCount : q.retryCount = a₃.retryCnt.setWidth 3
  rnrRetry : q.rnrRetry = a₃.rnrRetry.setWidth 3
  minRnrNak : q.minRnrNak =
    if m₃.has .minRnrTimer then a₃.minRnrTimer.setWidth 5 else a₂.minRnrTimer.setWidth 5
  rwe : q.rwe =
    if m₃.has .allowRemoteWrite then a₃.rwe else if m₂.has .allowRemoteWrite then a₂.rwe else a₁.rwe
  rre : q.rre = if m₂.has .allowRemoteRead then a₂.rre m₂ else a₁.rre m₁
  logSraMax : m₃.has .maxQpRdAtomic →
    q.logSraMax = BitVec.ofNat 3 (docaInternalUtilsLog2 a₃.maxRdAtomic)
  logRraMax : m₂.has .maxDestRdAtomic →
    q.logRraMax = BitVec.ofNat 3 (docaInternalUtilsLog2 a₂.maxDestRdAtomic)
  path : ∃ udpSport mac roceVersion, q.primaryAddressPath =
    { init2rtrPath a₂ udpSport mac roceVersion with
      ackTimeout := a₃.ackTimeout.setWidth 5
      vhcaPortNum := a₁.portNum.setWidth 8
      pkeyIndex := if m₂.has .pkeyIndex then a₂.pkeyIndex else a₁.pkeyIndex }

section Stages

variable {dev : DeviceAttr} {env : ModifyEnv} {a : QpAttr} {m : AttrMask} {c : ModifyCmd}

theorem store_rst2init (h : Move.rst2init.cmd dev env a m = .ok c) (q : Qpc) :
    (c.store q).rwe = a.rwe ∧ (c.store q).rre = a.rre m ∧
      (c.store q).primaryAddressPath.vhcaPortNum = a.portNum.setWidth 8 ∧
      (c.store q).primaryAddressPath.pkeyIndex = a.pkeyIndex := by
  obtain ⟨-, h⟩ := ok_of_guard h
  cases h
  exact ⟨rfl, rfl, rfl, rfl⟩

theorem store_init2rtr (h : Move.init2rtr.cmd dev env a m = .ok c) (q : Qpc) :
    ∃ prmMtu mac roceVersion, convertDocaMtuSizeToPrmMtuSize a.pathMtu = .ok prmMtu ∧
      c.store q =
        { init2rtrQpc a m prmMtu
            { init2rtrPath a env.udpSport mac roceVersion with
              ackTimeout := q.primaryAddressPath.ackTimeout
              vhcaPortNum := q.primaryAddressPath.vhcaPortNum
              pkeyIndex :=
                if m.has .pkeyIndex then a.pkeyIndex else q.primaryAddressPath.pkeyIndex }
          with
          state := 2
          pmState := q.pmState
          counterSetId := q.counterSetId
          logAckReqFreq := q.logAckReqFreq
          logSraMax := q.logSraMax
          retryCount := q.retryCount
          rnrRetry := q.rnrRetry
          nextSendPsn := q.nextSendPsn
          rwe := if m.has .allowRemoteWrite then a.rwe else q.rwe
          rre := if m.has .allowRemoteRead then a.rre m else q.rre
          rae := if m.has .atomicMode then a.rae m else q.rae
          atomicMode := if m.has .atomicMode then a.atomicModeBits m else q.atomicMode } := by
  obtain ⟨-, prmMtu, mac, v, hmtu, hc⟩ := init2rtrCmd_ok h
  have hop : c.opcode = .init2rtr := by rw [hc]
  have hopt : c.optParamMask = convertToOptParamMask m .init2rtr := by rw [hc]
  have hq : c.qpc = init2rtrQpc a m prmMtu (init2rtrPath a env.udpSport mac v) := by rw [hc]
  have rwe := fun g k => storeIf_convert (p := .rwe) (w := 1) hopt (by decide) g k
  have rre := fun g k => storeIf_convert (p := .rre) (w := 1) hopt (by decide) g k
  have rae := fun g k => storeIf_convert (p := .rae) (w := 1) hopt (by decide) g k
  have mode := fun g k => storeIf_convert (p := .rae) (w := 4) hopt (by decide) g k
  have pkey := fun g k => storeIf_convert (p := .pkeyIndex) (w := 16) hopt (by decide) g k
  refine ⟨prmMtu, mac, v, hmtu, ?_⟩
  unfold ModifyCmd.store
  simp only [hop, hq, rwe, rre, rae, mode, pkey]
  rfl

theorem store_rtr2rts (h : Move.rtr2rts.cmd dev env a m = .ok c) (q : Qpc) :
    c.store q =
      { q with
        state := 3
        nextSendPsn := a.sqPsn.setWidth 24
        retryCount := if m.has .retryCnt then a.retryCnt.setWidth 3 else 0
        rnrRetry := if m.has .rnrRetry then a.rnrRetry.setWidth 3 else 0
        logSraMax :=
          if m.has .maxQpRdAtomic then BitVec.ofNat 3 (docaInternalUtilsLog2 a.maxRdAtomic) else 0
        logAckReqFreq := 0
        rwe := if m.has .allowRemoteWrite then a.rwe else q.rwe
        rae := if m.has .atomicMode then a.rae m else q.rae
        atomicMode := if m.has .atomicMode then a.atomicModeBits m else q.atomicMode
        minRnrNak := if m.has .minRnrTimer then a.minRnrTimer.setWidth 5 else q.minRnrNak
        primaryAddressPath :=
          { q.primaryAddressPath with
            ackTimeout := if m.has .ackTimeout then a.ackTimeout.setWidth 5 else 0 } } := by
  obtain ⟨-, hc⟩ := ok_of_guard h
  have hc := (Except.ok.inj hc).symm
  have hop : c.opcode = .rtr2rts := by rw [hc]
  have hopt : c.optParamMask = convertToOptParamMask m .rtr2rts := by rw [hc]
  have rwe := fun g k => storeIf_convert (p := .rwe) (w := 1) hopt (by decide) g k
  have rae := fun g k => storeIf_convert (p := .rae) (w := 1) hopt (by decide) g k
  have mode := fun g k => storeIf_convert (p := .rae) (w := 4) hopt (by decide) g k
  have rnr : c.storeIf .minRnrNak c.qpc.minRnrNak q.minRnrNak =
      if m.has .minRnrTimer then a.minRnrTimer.setWidth 5 else q.minRnrNak := by
    rw [storeIf_convert hopt (by decide), hc]
    simp only [OptParam.attr]
    split <;> rfl
  unfold ModifyCmd.store
  simp only [hop, rwe, rae, mode, rnr]
  rw [hc]
  rfl

/-- The state of the device after the three transitions of a queue pair that is brought up. -/
theorem broughtUp_store {env₁ env₂ env₃ : ModifyEnv} {a₁ a₂ a₃ : QpAttr} {m₁ m₂ m₃ : AttrMask}
    {c₁ c₂ c₃ : ModifyCmd} (h₁ : Move.rst2init.cmd dev env₁ a₁ m₁ = .ok c₁)
    (h₂ : Move.init2rtr.cmd dev env₂ a₂ m₂ = .ok c₂)
    (h₃ : Move.rtr2rts.cmd dev env₃ a₃ m₃ = .ok c₃) (q : Qpc) :
    BroughtUp a₁ a₂ a₃ m₁ m₂ m₃ (c₃.store (c₂.store (c₁.store q))) := by
  have hm₂ := (Move.cmd_ok h₂).2.complete
  have hm₃ := (Move.cmd_ok h₃).2.complete
  obtain ⟨hrwe, hrre, hport, hpkey⟩ := store_rst2init h₁ q
  obtain ⟨prmMtu, mac, v, hmtu, hq₂⟩ := store_init2rtr h₂ (c₁.store q)
  rw [store_rtr2rts h₃, hq₂, hrwe, hrre, hport, hpkey]
  exact
    { state := rfl
      mtu := hmtu
      nextRcvPsn := rfl
      nextSendPsn := rfl
      remoteQpn := rfl
      retryCount := if_pos (hm₃ .retryCnt (by decide))
      rnrRetry := if_pos (hm₃ .rnrRetry (by decide))
      minRnrNak := if_congr Iff.rfl rfl (if_pos (hm₂ .minRnrTimer (by decide)))
      rwe := rfl
      rre := rfl
      logSraMax := fun h => if_pos h
      logRraMax := fun h => if_pos h
      path := ⟨env₂.udpSport, mac, v, by
        rw [if_pos (hm₃ .ackTimeout (by decide))]
        rfl⟩ }

end Stages

/-! ## Bringing a queue pair up -/

variable {D : Type*} {dev : DeviceAttr} (sd : StoringDevice D)

variable (dev) in
/-- A successful call that takes the queue pair from one state to another. -/
structure Leads (s : ModifySys D) (c : ModifyCall) (a : QpAttr) (s' : ModifySys D)
    (p p' : QpState) : Prop where
  qpAttr : c.qpAttr = some a
  ok : modify dev sd.toDevice s c = (none, s')
  start : sd.qpState s.hw = p
  stop : sd.qpState s'.hw = p'

/-- What the value checks have found, and done to the record. -/
theorem validate_true {a a' : QpAttr} {m : AttrMask} (h : a.validate dev m = (true, a')) :
    a' = a.cutPsns m ∧ (m.has .ahAttr → a.ahAttr.addrType.isSome) := by
  unfold QpAttr.validate at h
  split at h
  · cases h
  split at h
  · cases h
  split at h
  · cases h
  dsimp only at h
  split at h
  · cases h
  · rename_i hty
    refine ⟨?_, ?_⟩
    · split_ifs at h <;> cases h
      rfl
    · intro hm
      have hk : (a.cutPsns m).ahAttr = a.ahAttr := rfl
      rw [hm, hk, Bool.true_and] at hty
      exact Option.isSome_iff_ne_none.2 (by simpa using hty)

theorem isQpAttrQueuePsnValid_of_lt {psn : BitVec 32} (h : psn.toNat < 2 ^ 24) :
    isQpAttrQueuePsnValid psn = psn := by
  have hk : psn &&& 0xffffff#32 = psn := by
    apply BitVec.eq_of_toNat_eq
    rw [BitVec.toNat_and]
    exact Nat.and_two_pow_sub_one_of_lt_two_pow h
  unfold isQpAttrQueuePsnValid
  rw [hk, ite_self]

theorem QpAttr.Fits.cutPsns {a : QpAttr} {m : AttrMask} (h : a.Fits m) : a.cutPsns m = a := by
  have hr : (if m.has .rqPsn then isQpAttrQueuePsnValid a.rqPsn else a.rqPsn) = a.rqPsn := by
    split
    · exact isQpAttrQueuePsnValid_of_lt (h.rqPsn ‹_›)
    · rfl
  have hs : (if m.has .sqPsn then isQpAttrQueuePsnValid a.sqPsn else a.sqPsn) = a.sqPsn := by
    split
    · exact isQpAttrQueuePsnValid_of_lt (h.sqPsn ‹_›)
    · rfl
  unfold QpAttr.cutPsns
  rw [hr, hs]

theorem Leads.cmd {s s' : ModifySys D} {c : ModifyCall} {a : QpAttr} {p p' : QpState}
    (h : Leads dev sd s c a s' p p') (hf : a.Fits c.attrMask) :
    ∃ (t : Move) (cmd : ModifyCmd), t.From p ∧ t.target = p' ∧
      t.cmd dev c.env a c.attrMask = .ok cmd ∧ sd.qpc s'.hw = cmd.store (sd.qpc s.hw) ∧
      s'.qp = t.settle a s.qp ∧ (c.attrMask.has .ahAttr → a.ahAttr.addrType.isSome) := by
  obtain ⟨a₀, a', t, ha, hv, -, ht⟩ := modify_ok h.ok
  obtain rfl : a₀ = a := Option.some.inj (ha.symm.trans h.qpAttr)
  obtain ⟨ha', hty⟩ := validate_true hv
  rw [hf.cutPsns] at ha'
  subst ha'
  obtain ⟨cmd, hc, he, hq⟩ := transition_ok ht
  obtain ⟨rfl, -⟩ := Move.cmd_ok hc
  exact ⟨cmd.opcode, cmd, h.start ▸ sd.exec_from he, (sd.exec_target he).symm.trans h.stop, hc,
    sd.exec_qpc he, hq, hty⟩

theorem Move.eq_rst2init {t : Move} (hf : t.From .rst) (ht : t.target = .init) :
    t = .rst2init := by
  revert hf ht
  cases t <;> decide

theorem Move.eq_init2rtr {t : Move} (hf : t.From .init) (ht : t.target = .rtr) :
    t = .init2rtr := by
  revert hf ht
  cases t <;> decide

theorem Move.eq_rtr2rts {t : Move} (hf : t.From .rtr) (ht : t.target = .rts) :
    t = .rtr2rts := by
  revert hf ht
  cases t <;> decide

/-! ## What comes back -/

theorem setWidth_setWidth_of_lt {n w : ℕ} {x : BitVec n} (h : x.toNat < 2 ^ w) :
    (x.setWidth w).setWidth n = x := by
  apply BitVec.eq_of_toNat_eq
  rw [BitVec.toNat_setWidth, BitVec.toNat_setWidth, Nat.mod_eq_of_lt h, Nat.mod_eq_of_lt x.isLt]

/-- A flag of 0 or 1 comes back from its bit. -/
theorem setWidth_flag {x : BitVec 32} (h : x.toNat < 2 ^ 1) :
    (if x = 1 then 1 else 0 : BitVec 1).setWidth 32 = x := by
  have hx : x = 0 ∨ x = 1 := by
    have : x.toNat = 0 ∨ x.toNat = 1 := by omega
    exact this.imp (fun h => BitVec.eq_of_toNat_eq h) (fun h => BitVec.eq_of_toNat_eq h)
  obtain rfl | rfl := hx <;> decide

theorem QpAttr.rre_of_has {a : QpAttr} {m : AttrMask} (h : m.has .allowRemoteRead) :
    a.rre m = if a.allowRemoteRead = 1 then 1 else 0 := by
  unfold QpAttr.rre
  simp only [h, true_and]

theorem convertPrmMtuSize_of_ok {mtu : Option MtuSize} {v : BitVec 3}
    (h : convertDocaMtuSizeToPrmMtuSize mtu = .ok v) :
    ∃ k, mtu = some k ∧ convertPrmMtuSize v = .ok k := by
  cases mtu with
  | none => cases h
  | some k => cases k <;> cases h <;> exact ⟨_, rfl, rfl⟩

/-- A limit comes back rounded down, unless it is 0. -/
theorem roundedDown_iff (x : BitVec 8) :
    RoundedDown x (BitVec.ofNat 8 (1 <<< (BitVec.ofNat 3 (docaInternalUtilsLog2 x)).toNat)) ↔
      x ≠ 0 := by
  constructor
  · rintro ⟨k, -, hle, -⟩ rfl
    have := Nat.two_pow_pos k
    simp at hle
  · intro hx
    have hpos : x.toNat ≠ 0 := fun h => hx (BitVec.eq_of_toNat_eq h)
    have hlog : x.toNat.log2 < 8 := (Nat.log2_lt hpos).2 x.isLt
    have hpow : 2 ^ x.toNat.log2 < 2 ^ 8 := Nat.pow_lt_pow_right (by decide) hlog
    refine ⟨x.toNat.log2, ?_, Nat.log2_self_le hpos, Nat.lt_log2_self⟩
    rw [docaInternalUtilsLog2, if_neg hx, BitVec.toNat_ofNat, BitVec.toNat_ofNat,
      Nat.mod_eq_of_lt hlog, Nat.one_shiftLeft, Nat.mod_eq_of_lt hpow]

/-- Three calls: the last that sets the bit counts. -/
theorem forall_lastSet_three {α : Type*} {f : QpAttr → α} {b : AttrBit} {a₁ a₂ a₃ : QpAttr}
    {m₁ m₂ m₃ : AttrMask} {P : α → Prop} :
    (∀ v ∈ lastSet f b [(a₁, m₁), (a₂, m₂), (a₃, m₃)], P v) ↔
      (m₃.has b → P (f a₃)) ∧ (¬ m₃.has b → m₂.has b → P (f a₂)) ∧
        (¬ m₃.has b → ¬ m₂.has b → m₁.has b → P (f a₁)) := by
  unfold lastSet
  cases h₃ : m₃.has b <;> cases h₂ : m₂.has b <;> cases h₁ : m₁.has b <;>
    simp [h₁, h₂, h₃]

/-- The handle that comes back after the path has been set. -/
theorem ahReturned_iff {a : QpAttr} {m : AttrMask} (hm : m.has .ahAttr) (hf : a.Fits m)
    (hty : a.ahAttr.addrType.isSome) {udpSport : BitVec 16} {mac : Option (BitVec 48)}
    {roceVersion : Option (BitVec 8)} {p : Ads} (h : AhAttr)
    (hp : ∃ ackTimeout vhcaPortNum pkeyIndex, p = { init2rtrPath a udpSport mac roceVersion with
      ackTimeout := ackTimeout, vhcaPortNum := vhcaPortNum, pkeyIndex := pkeyIndex }) :
    AhReturned a.ahAttr (p.toAhAttr a.ahAttr.addrType h) ↔
      (a.ahAttr.isRoce → a.ahAttr.trafficClass = 0) := by
  obtain ⟨k, n, i, rfl⟩ := hp
  have hib : a.ahAttr.isRoce = !a.ahAttr.isIb := by
    unfold AhAttr.isRoce AhAttr.isIb
    cases hk : a.ahAttr.addrType with
    | none => simp [hk] at hty
    | some t => cases t <;> rfl
  have htc : (Ads.toAhAttr { init2rtrPath a udpSport mac roceVersion with
      ackTimeout := k, vhcaPortNum := n, pkeyIndex := i } a.ahAttr.addrType h).trafficClass =
        if a.ahAttr.isIb then a.ahAttr.trafficClass else 0 := rfl
  constructor
  · intro hr hroce
    have := hr.trafficClass
    rw [hib, Bool.not_eq_true'] at hroce
    rw [htc, hroce] at this
    exact this.symm
  · intro hc
    exact
      { addrType := rfl
        staticRate := setWidth_setWidth_of_lt (hf.staticRate hm)
        dlid := fun hi => by
          show (if a.ahAttr.isIb then a.ahAttr.dlid.setWidth 16 else 0).setWidth 32 = _
          rw [if_pos hi, setWidth_setWidth_of_lt (hf.dlid hm hi)]
        sl := fun hi => by
          show (if a.ahAttr.isIb then a.ahAttr.sl.setWidth 4 else 0).setWidth 8 = _
          rw [if_pos hi, setWidth_setWidth_of_lt (hf.sl hm hi)]
        trafficClass := by
          rw [htc]
          split
          · rfl
          · rename_i hi
            exact (hc (by rw [hib, Bool.not_eq_true'] ; simpa using hi)).symm
        gid := fun ht => if_pos ht
        hopLimit := fun ht => if_pos ht
        sgidIndex := fun ht => if_pos ht }

/-- What is lost on the way: the traffic class of a RoCE address, and limits of 0. -/
structure Comes (a₂ a₃ : QpAttr) (m₂ m₃ : AttrMask) (handle : Bool) : Prop where
  trafficClass : handle → a₂.ahAttr.isRoce → a₂.ahAttr.trafficClass = 0
  maxRdAtomic : m₃.has .maxQpRdAtomic → a₃.maxRdAtomic ≠ 0
  maxDestRdAtomic : m₂.has .maxDestRdAtomic → a₂.maxDestRdAtomic ≠ 0

section Decode

variable {a₁ a₂ a₃ : QpAttr} {m₁ m₂ m₃ : AttrMask} {q : Qpc}

section Single

variable {α : Type*} {f : QpAttr → α} {b : AttrBit} {P : α → Prop}

/-- An attribute that one of the three transitions alone may carry. -/
theorem forall_lastSet_rst2init (hm₂ : Move.init2rtr.MaskOk m₂) (hm₃ : Move.rtr2rts.MaskOk m₃)
    (h₂ : b ∉ Move.init2rtr.allowed) (h₃ : b ∉ Move.rtr2rts.allowed) :
    (∀ v ∈ lastSet f b [(a₁, m₁), (a₂, m₂), (a₃, m₃)], P v) ↔ (m₁.has b → P (f a₁)) := by
  rw [forall_lastSet_three]
  simp [hm₂.not_has h₂, hm₃.not_has h₃]

theorem forall_lastSet_init2rtr (hm₁ : Move.rst2init.MaskOk m₁) (hm₃ : Move.rtr2rts.MaskOk m₃)
    (h₁ : b ∉ Move.rst2init.allowed) (h₃ : b ∉ Move.rtr2rts.allowed) :
    (∀ v ∈ lastSet f b [(a₁, m₁), (a₂, m₂), (a₃, m₃)], P v) ↔ (m₂.has b → P (f a₂)) := by
  rw [forall_lastSet_three]
  simp [hm₁.not_has h₁, hm₃.not_has h₃]

theorem forall_lastSet_rtr2rts (hm₁ : Move.rst2init.MaskOk m₁) (hm₂ : Move.init2rtr.MaskOk m₂)
    (h₁ : b ∉ Move.rst2init.allowed) (h₂ : b ∉ Move.init2rtr.allowed) :
    (∀ v ∈ lastSet f b [(a₁, m₁), (a₂, m₂), (a₃, m₃)], P v) ↔ (m₃.has b → P (f a₃)) := by
  rw [forall_lastSet_three]
  simp [hm₁.not_has h₁, hm₂.not_has h₂]

end Single

/-- The decoder reads the fields of a queue pair that has been brought up. -/
theorem queryQp_ok (hq : BroughtUp a₁ a₂ a₃ m₁ m₂ m₃ q) (qp : QpOpen) (out : QpAttr) :
    ∃ mtu, a₂.pathMtu = some mtu ∧
      queryQp true q qp out = .ok (decodeQpc q qp out .rts mtu) := by
  obtain ⟨mtu, hmtu, hc⟩ := convertPrmMtuSize_of_ok hq.mtu
  refine ⟨mtu, hmtu, ?_⟩
  unfold queryQp
  rw [hq.state, hc]
  rfl

section Back

variable {qp : QpOpen} {out : QpAttr} {mtu : MtuSize}

/-- The address handle, which the second call always sets. -/
theorem BroughtUp.ahAttr_iff (hq : BroughtUp a₁ a₂ a₃ m₁ m₂ m₃ q) (hm₁ : Move.rst2init.MaskOk m₁)
    (hm₂ : Move.init2rtr.MaskOk m₂) (hm₃ : Move.rtr2rts.MaskOk m₃) (f₂ : a₂.Fits m₂)
    (hty : a₂.ahAttr.addrType.isSome) (hqp : qp.addrType = a₂.ahAttr.addrType)
    (ho : out.ahAttrEnabled) :
    (∀ h ∈ lastSet (·.ahAttr) .ahAttr [(a₁, m₁), (a₂, m₂), (a₃, m₃)],
        AhReturned h (decodeQpc q qp out .rts mtu).ahAttr) ↔
      (a₂.ahAttr.isRoce → a₂.ahAttr.trafficClass = 0) := by
  have hah : m₂.has .ahAttr := hm₂.complete _ (by decide)
  obtain ⟨u, mac, v, hp⟩ := hq.path
  have hout : (decodeQpc q qp out .rts mtu).ahAttr =
      q.primaryAddressPath.toAhAttr a₂.ahAttr.addrType out.ahAttr := by
    rw [← hqp]
    exact if_pos ho
  rw [hout, ← ahReturned_iff hah f₂ hty out.ahAttr ⟨_, _, _, hp⟩,
    forall_lastSet_init2rtr (f := (·.ahAttr)) hm₁ hm₃ (by decide) (by decide)]
  exact ⟨fun h => h hah, fun h _ => h⟩

theorem BroughtUp.maxRdAtomic_iff (hq : BroughtUp a₁ a₂ a₃ m₁ m₂ m₃ q)
    (hm₁ : Move.rst2init.MaskOk m₁) (hm₂ : Move.init2rtr.MaskOk m₂) :
    (∀ v ∈ lastSet (·.maxRdAtomic) .maxQpRdAtomic [(a₁, m₁), (a₂, m₂), (a₃, m₃)],
        RoundedDown v (decodeQpc q qp out .rts mtu).maxRdAtomic) ↔
      (m₃.has .maxQpRdAtomic → a₃.maxRdAtomic ≠ 0) := by
  refine (forall_lastSet_rtr2rts hm₁ hm₂ (by decide) (by decide)).trans
    (forall_congr' fun hm => ?_)
  rw [← roundedDown_iff, ← hq.logSraMax hm]
  rfl

theorem BroughtUp.maxDestRdAtomic_iff (hq : BroughtUp a₁ a₂ a₃ m₁ m₂ m₃ q)
    (hm₁ : Move.rst2init.MaskOk m₁) (hm₃ : Move.rtr2rts.MaskOk m₃) :
    (∀ v ∈ lastSet (·.maxDestRdAtomic) .maxDestRdAtomic [(a₁, m₁), (a₂, m₂), (a₃, m₃)],
        RoundedDown v (decodeQpc q qp out .rts mtu).maxDestRdAtomic) ↔
      (m₂.has .maxDestRdAtomic → a₂.maxDestRdAtomic ≠ 0) := by
  refine (forall_lastSet_init2rtr hm₁ hm₃ (by decide) (by decide)).trans
    (forall_congr' fun hm => ?_)
  rw [← roundedDown_iff, ← hq.logRraMax hm]
  rfl

/-- The second call need not set the index of the first again. -/
theorem BroughtUp.pkeyIndex (hq : BroughtUp a₁ a₂ a₃ m₁ m₂ m₃ q) (hm₃ : Move.rtr2rts.MaskOk m₃) :
    Returned (·.pkeyIndex) .pkeyIndex [(a₁, m₁), (a₂, m₂), (a₃, m₃)]
      (decodeQpc q qp out .rts mtu) := by
  obtain ⟨u, mac, v, hp⟩ := hq.path
  refine forall_lastSet_three.2 ⟨fun h => absurd h (hm₃.not_has (by decide)), ?_, ?_⟩
  · intro _ h
    show q.primaryAddressPath.pkeyIndex = _
    rw [hp, if_pos h]
  · intro _ h _
    show q.primaryAddressPath.pkeyIndex = _
    rw [hp, if_neg h]

theorem BroughtUp.minRnrTimer (hq : BroughtUp a₁ a₂ a₃ m₁ m₂ m₃ q)
    (hm₁ : Move.rst2init.MaskOk m₁) (f₂ : a₂.Fits m₂) (f₃ : a₃.Fits m₃) :
    Returned (·.minRnrTimer) .minRnrTimer [(a₁, m₁), (a₂, m₂), (a₃, m₃)]
      (decodeQpc q qp out .rts mtu) := by
  refine forall_lastSet_three.2 ⟨?_, ?_, fun _ _ h => absurd h (hm₁.not_has (by decide))⟩
  · intro h
    show q.minRnrNak.setWidth 8 = _
    rw [hq.minRnrNak, if_pos h, setWidth_setWidth_of_lt (f₃.minRnrTimer h)]
  · intro h₃ h
    show q.minRnrNak.setWidth 8 = _
    rw [hq.minRnrNak, if_neg h₃, setWidth_setWidth_of_lt (f₂.minRnrTimer h)]

/-- Each of the three calls may set the right to write. -/
theorem BroughtUp.allowRemoteWrite (hq : BroughtUp a₁ a₂ a₃ m₁ m₂ m₃ q) (f₁ : a₁.Fits m₁)
    (f₂ : a₂.Fits m₂) (f₃ : a₃.Fits m₃) :
    Returned (·.allowRemoteWrite) .allowRemoteWrite [(a₁, m₁), (a₂, m₂), (a₃, m₃)]
      (decodeQpc q qp out .rts mtu) := by
  refine forall_lastSet_three.2 ⟨?_, ?_, ?_⟩
  · intro h
    show q.rwe.setWidth 32 = _
    rw [hq.rwe, if_pos h]
    exact setWidth_flag (f₃.allowRemoteWrite h)
  · intro h₃ h
    show q.rwe.setWidth 32 = _
    rw [hq.rwe, if_neg h₃, if_pos h]
    exact setWidth_flag (f₂.allowRemoteWrite h)
  · intro h₃ h₂ h
    show q.rwe.setWidth 32 = _
    rw [hq.rwe, if_neg h₃, if_neg h₂]
    exact setWidth_flag (f₁.allowRemoteWrite h)

theorem BroughtUp.allowRemoteRead (hq : BroughtUp a₁ a₂ a₃ m₁ m₂ m₃ q)
    (hm₃ : Move.rtr2rts.MaskOk m₃) (f₁ : a₁.Fits m₁) (f₂ : a₂.Fits m₂) :
    Returned (·.allowRemoteRead) .allowRemoteRead [(a₁, m₁), (a₂, m₂), (a₃, m₃)]
      (decodeQpc q qp out .rts mtu) := by
  refine forall_lastSet_three.2 ⟨fun h => absurd h (hm₃.not_has (by decide)), ?_, ?_⟩
  · intro _ h
    show q.rre.setWidth 32 = _
    rw [hq.rre, if_pos h, QpAttr.rre_of_has h]
    exact setWidth_flag (f₂.allowRemoteRead h)
  · intro _ h₂ h
    show q.rre.setWidth 32 = _
    rw [hq.rre, if_neg h₂, QpAttr.rre_of_has h]
    exact setWidth_flag (f₁.allowRemoteRead h)

end Back

theorem roundTrip_iff_comes (hq : BroughtUp a₁ a₂ a₃ m₁ m₂ m₃ q) (hm₁ : Move.rst2init.MaskOk m₁)
    (hm₂ : Move.init2rtr.MaskOk m₂) (hm₃ : Move.rtr2rts.MaskOk m₃) (f₁ : a₁.Fits m₁)
    (f₂ : a₂.Fits m₂) (f₃ : a₃.Fits m₃) (hty : a₂.ahAttr.addrType.isSome) {qp : QpOpen}
    (hqp : qp.addrType = a₂.ahAttr.addrType) {mtu : MtuSize} (hmtu : a₂.pathMtu = some mtu)
    (out : QpAttr) :
    RoundTrip [(a₁, m₁), (a₂, m₂), (a₃, m₃)] (decodeQpc q qp out .rts mtu) ↔
      Comes a₂ a₃ m₂ m₃ out.ahAttrEnabled := by
  constructor
  · intro h
    exact ⟨fun ho => (hq.ahAttr_iff hm₁ hm₂ hm₃ f₂ hty hqp ho).1 (h.ahAttr ho),
      (hq.maxRdAtomic_iff hm₁ hm₂).1 h.maxRdAtomic,
      (hq.maxDestRdAtomic_iff hm₁ hm₃).1 h.maxDestRdAtomic⟩
  · intro hc
    obtain ⟨u, mac, v, hp⟩ := hq.path
    exact
      { pathMtu := (forall_lastSet_init2rtr hm₁ hm₃ (by decide) (by decide)).2 fun _ => hmtu.symm
        rqPsn := (forall_lastSet_init2rtr hm₁ hm₃ (by decide) (by decide)).2 fun h => by
          show q.nextRcvPsn.setWidth 32 = _
          rw [hq.nextRcvPsn, setWidth_setWidth_of_lt (f₂.rqPsn h)]
        sqPsn := (forall_lastSet_rtr2rts hm₁ hm₂ (by decide) (by decide)).2 fun h => by
          show q.nextSendPsn.setWidth 32 = _
          rw [hq.nextSendPsn, setWidth_setWidth_of_lt (f₃.sqPsn h)]
        destQpNum := (forall_lastSet_init2rtr hm₁ hm₃ (by decide) (by decide)).2 fun h => by
          show q.remoteQpn.setWidth 32 = _
          rw [hq.remoteQpn, setWidth_setWidth_of_lt (f₂.destQpNum h)]
        pkeyIndex := hq.pkeyIndex hm₃
        portNum := (forall_lastSet_rst2init hm₂ hm₃ (by decide) (by decide)).2 fun h => by
          show q.primaryAddressPath.vhcaPortNum.setWidth 16 = _
          rw [hp, setWidth_setWidth_of_lt (f₁.portNum h)]
        ackTimeout := (forall_lastSet_rtr2rts hm₁ hm₂ (by decide) (by decide)).2 fun h => by
          show q.primaryAddressPath.ackTimeout.setWidth 8 = _
          rw [hp, setWidth_setWidth_of_lt (f₃.ackTimeout h)]
        retryCnt := (forall_lastSet_rtr2rts hm₁ hm₂ (by decide) (by decide)).2 fun h => by
          show q.retryCount.setWidth 8 = _
          rw [hq.retryCount, setWidth_setWidth_of_lt (f₃.retryCnt h)]
        rnrRetry := (forall_lastSet_rtr2rts hm₁ hm₂ (by decide) (by decide)).2 fun h => by
          show q.rnrRetry.setWidth 8 = _
          rw [hq.rnrRetry, setWidth_setWidth_of_lt (f₃.rnrRetry h)]
        minRnrTimer := hq.minRnrTimer hm₁ f₂ f₃
        allowRemoteWrite := hq.allowRemoteWrite f₁ f₂ f₃
        allowRemoteRead := hq.allowRemoteRead hm₃ f₁ f₂
        maxRdAtomic := (hq.maxRdAtomic_iff hm₁ hm₂).2 hc.maxRdAtomic
        maxDestRdAtomic := (hq.maxDestRdAtomic_iff hm₁ hm₃).2 hc.maxDestRdAtomic
        ahAttr := fun (ho : out.ahAttrEnabled) =>
          (hq.ahAttr_iff hm₁ hm₂ hm₃ f₂ hty hqp ho).2 (hc.trafficClass ho) }

end Decode

/-- **The round trip.** A query of a queue pair that has been brought up answers, and returns what
the three calls have set exactly if no RoCE address has a traffic class and no read limit is 0. -/
theorem query_roundTrip_iff {s₀ s₁ s₂ s₃ : ModifySys D} {c₁ c₂ c₃ : ModifyCall} {a₁ a₂ a₃ : QpAttr}
    (h₁ : Leads dev sd s₀ c₁ a₁ s₁ .rst .init) (h₂ : Leads dev sd s₁ c₂ a₂ s₂ .init .rtr)
    (h₃ : Leads dev sd s₂ c₃ a₃ s₃ .rtr .rts) (f₁ : a₁.Fits c₁.attrMask)
    (f₂ : a₂.Fits c₂.attrMask) (f₃ : a₃.Fits c₃.attrMask) (out : QpAttr) :
    ∃ out', queryQp true (sd.qpc s₃.hw) s₃.qp out = .ok out' ∧
      (RoundTrip [(a₁, c₁.attrMask), (a₂, c₂.attrMask), (a₃, c₃.attrMask)] out' ↔
        Comes a₂ a₃ c₂.attrMask c₃.attrMask out.ahAttrEnabled) := by
  obtain ⟨t₁, k₁, hf₁, ht₁, hk₁, hw₁, -, -⟩ := h₁.cmd sd f₁
  obtain ⟨t₂, k₂, hf₂, ht₂, hk₂, hw₂, hqp₂, hty⟩ := h₂.cmd sd f₂
  obtain ⟨t₃, k₃, hf₃, ht₃, hk₃, hw₃, hqp₃, -⟩ := h₃.cmd sd f₃
  obtain rfl := Move.eq_rst2init hf₁ ht₁
  obtain rfl := Move.eq_init2rtr hf₂ ht₂
  obtain rfl := Move.eq_rtr2rts hf₃ ht₃
  have hm₁ := (Move.cmd_ok hk₁).2
  have hm₂ := (Move.cmd_ok hk₂).2
  have hm₃ := (Move.cmd_ok hk₃).2
  have hq := broughtUp_store hk₁ hk₂ hk₃ (sd.qpc s₀.hw)
  rw [← hw₁, ← hw₂, ← hw₃] at hq
  obtain ⟨mtu, hmtu, hquery⟩ := queryQp_ok hq s₃.qp out
  have hqp : s₃.qp.addrType = a₂.ahAttr.addrType := by
    rw [hqp₃, hqp₂]
    rfl
  exact ⟨_, hquery, roundTrip_iff_comes hq hm₁ hm₂ hm₃ f₁ f₂ f₃
    (hty (hm₂.complete _ (by decide))) hqp hmtu out⟩

/-! ## Two queries -/

/-- A device that only has the state and the context. -/
def StoringDevice.plain : StoringDevice (QpState × Qpc) where
  qpState := Prod.fst
  exec d c := if c.opcode.From d.1 then some (c.opcode.target, c.store d.2) else none
  exec_from h := by
    split at h
    · assumption
    · cases h
  exec_target h := by
    split at h
    · cases h
      rfl
    · cases h
  qpc := Prod.snd
  exec_qpc h := by
    split at h
    · cases h
      rfl
    · cases h

/-- A queue pair on that device, after some calls. -/
def plainAfter (cs : List ModifyCall) : ModifySys (QpState × Qpc) :=
  Trace.run (modifyStep .single StoringDevice.plain.toDevice)
    { qp := { addrType := none, currentState := .rst }, hw := (.rst, .zero) } cs

/-- A routable address with this traffic class. -/
def ipv4Addr (trafficClass : BitVec 8) : AhAttr :=
  { QpAttr.create.ahAttr with trafficClass := trafficClass }

/-- The queue pair after the first calls that bring it up over this address. -/
def upTo (h : AhAttr) (n : ℕ) : ModifySys (QpState × Qpc) :=
  plainAfter ([initCall h, rtrCall h, rtsCall h].take n)

/-- The calls, with the records that they read. -/
def upCalls (h : AhAttr) : List (QpAttr × AttrMask) :=
  [(bringUpAttr h .init, (initCall h).attrMask), (bringUpAttr h .rtr, (rtrCall h).attrMask),
   (bringUpAttr h .rts, (rtsCall h).attrMask)]

theorem fits_bringUpAttr (v : BitVec 8) (t : QpState) (m : AttrMask) :
    (bringUpAttr (ipv4Addr v) t).Fits m := by
  constructor <;> intros <;> exact of_decide_eq_true rfl

theorem query_roundTrip_ipv4 :
    let h := ipv4Addr 0
    ∃ out', queryQp true (upTo h 3).hw.2 (upTo h 3).qp (bringUpAttr h .rts) = .ok out' ∧
      (RoundTrip (upCalls h) out' ↔ Comes (bringUpAttr h .rtr) (bringUpAttr h .rts)
        (rtrCall h).attrMask (rtsCall h).attrMask true) := by
  have h₁ : Leads .single .plain (upTo (ipv4Addr 0) 0) (initCall (ipv4Addr 0))
      (bringUpAttr (ipv4Addr 0) .init) (upTo (ipv4Addr 0) 1) .rst .init :=
    ⟨rfl, Prod.ext (by decide) rfl, by decide, by decide⟩
  have h₂ : Leads .single .plain (upTo (ipv4Addr 0) 1) (rtrCall (ipv4Addr 0))
      (bringUpAttr (ipv4Addr 0) .rtr) (upTo (ipv4Addr 0) 2) .init .rtr :=
    ⟨rfl, Prod.ext (by decide) rfl, by decide, by decide⟩
  have h₃ : Leads .single .plain (upTo (ipv4Addr 0) 2) (rtsCall (ipv4Addr 0))
      (bringUpAttr (ipv4Addr 0) .rts) (upTo (ipv4Addr 0) 3) .rtr .rts :=
    ⟨rfl, Prod.ext (by decide) rfl, by decide, by decide⟩
  exact query_roundTrip_iff .plain h₁ h₂ h₃ (fits_bringUpAttr 0 _ _) (fits_bringUpAttr 0 _ _)
    (fits_bringUpAttr 0 _ _) _

/-- A traffic class of 32 on a routable address reads back as 0. -/
theorem query_loses_trafficClass :
    let h := ipv4Addr 32
    Leads .single .plain (upTo h 0) (initCall h) (bringUpAttr h .init) (upTo h 1) .rst .init ∧
      Leads .single .plain (upTo h 1) (rtrCall h) (bringUpAttr h .rtr) (upTo h 2) .init .rtr ∧
      Leads .single .plain (upTo h 2) (rtsCall h) (bringUpAttr h .rts) (upTo h 3) .rtr .rts ∧
      (∀ c ∈ upCalls h, c.1.Fits c.2) ∧
      ∃ out', queryQp true (upTo h 3).hw.2 (upTo h 3).qp (bringUpAttr h .rts) = .ok out' ∧
        ¬ RoundTrip (upCalls h) out' := by
  refine ⟨⟨rfl, Prod.ext (by decide) rfl, by decide, by decide⟩,
    ⟨rfl, Prod.ext (by decide) rfl, by decide, by decide⟩,
    ⟨rfl, Prod.ext (by decide) rfl, by decide, by decide⟩, ?_, ?_⟩
  · intro c hc
    simp only [upCalls, List.mem_cons, List.not_mem_nil, or_false] at hc
    obtain rfl | rfl | rfl := hc <;> exact fits_bringUpAttr 32 _ _
  · refine ⟨decodeQpc (upTo (ipv4Addr 32) 3).hw.2 (upTo (ipv4Addr 32) 3).qp
      (bringUpAttr (ipv4Addr 32) .rts) .rts .bytes256, by decide, ?_⟩
    intro h
    have hset : ipv4Addr 32 ∈ lastSet (·.ahAttr) .ahAttr (upCalls (ipv4Addr 32)) := by decide
    have htc := (h.ahAttr rfl _ hset).trafficClass
    revert htc
    decide

end Gpunetio.Verbs
