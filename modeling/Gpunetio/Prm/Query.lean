import Gpunetio.Prm.Modify

/-!
# A queue pair and its firmware

Host and firmware exchange messages and nothing else: the firmware takes each command apart, and
answers a query with the context it holds. This module runs the host's calls against it and compares
with the calls on records, as if host and device shared them.

* `qpcOf`, `decode`, **`decode_message`**: messages taken apart;
* `firmware`, `answer`: a device that sees messages only;
* `modifyMsg`, `queryMsg`: the calls of the host, in messages;
* **`runMsg_eq`**: any sequence of calls has the results it has on records.
-/

namespace Gpunetio.Prm

open BitField Verbs

/-! ## Taking messages apart -/

/-- A member as a word of its width. -/
def member (w : ℕ) (f : QpcField) (b : Bits) : BitVec w :=
  BitVec.ofNat w (modifyQpIn.get (.qpc f) b)

/-- The path in a message. -/
def adsOf (b : Bits) : Ads where
  pkeyIndex := member 16 (.primaryAddressPath .pkeyIndex) b
  grh := member 1 (.primaryAddressPath .grh) b
  rlid := member 16 (.primaryAddressPath .rlid) b
  ackTimeout := member 5 (.primaryAddressPath .ackTimeout) b
  srcAddrIndex := member 8 (.primaryAddressPath .srcAddrIndex) b
  statRate := member 4 (.primaryAddressPath .statRate) b
  hopLimit := member 8 (.primaryAddressPath .hopLimit) b
  tclass := member 8 (.primaryAddressPath .tclass) b
  rgidRip := member 128 (.primaryAddressPath .rgidRip) b
  dscp := member 6 (.primaryAddressPath .dscp) b
  udpSport := member 16 (.primaryAddressPath .udpSport) b
  sl := member 4 (.primaryAddressPath .sl) b
  vhcaPortNum := member 8 (.primaryAddressPath .vhcaPortNum) b
  rmac :=
    member 16 (.primaryAddressPath .rmac47To32) b ++ member 32 (.primaryAddressPath .rmac31To0) b

/-- The context in a message. -/
def qpcOf (b : Bits) : Qpc where
  state := member 4 .state b
  pmState := member 2 .pmState b
  mtu := member 3 .mtu b
  logMsgMax := member 5 .logMsgMax b
  counterSetId := member 8 .counterSetId b
  remoteQpn := member 24 .remoteQpn b
  primaryAddressPath := adsOf b
  logAckReqFreq := member 4 .logAckReqFreq b
  logSraMax := member 3 .logSraMax b
  retryCount := member 3 .retryCount b
  rnrRetry := member 3 .rnrRetry b
  nextSendPsn := member 24 .nextSendPsn b
  logRraMax := member 3 .logRraMax b
  atomicMode := member 4 .atomicMode b
  rre := member 1 .rre b
  rwe := member 1 .rwe b
  rae := member 1 .rae b
  minRnrNak := member 5 .minRnrNak b
  nextRcvPsn := member 24 .nextRcvPsn b

/-- The transition that an opcode stands for. -/
def moveOf (v : ℕ) : Option Move :=
  [.rst2init, .init2init, .init2rtr, .rtr2rts, .rts2rts, .qp2err, .qp2rst].find? fun t =>
    (opcode t).toNat == v

/-- A command taken apart: the number of a queue pair, and what is to be done with it. -/
def decode (b : Bits) : Option (BitVec 24 × ModifyCmd) :=
  (moveOf (modifyQpIn.get .opcode b)).map fun t =>
    (BitVec.ofNat 24 (modifyQpIn.get .qpn b),
      { opcode := t
        optParamMask := BitVec.ofNat 32 (modifyQpIn.get .optParamMask b)
        qpc := qpcOf b })

variable {b : Bits} {q : Qpc}

/-- A member that has the value of a record's. -/
theorem member_eq {w : ℕ} {f : QpcField} (x : BitVec w)
    (h : modifyQpIn.get (.qpc f) b = x.toNat % 2 ^ w) : member w f b = x := by
  unfold member
  rw [h, Nat.mod_eq_of_lt x.isLt, BitVec.ofNat_toNat, BitVec.setWidth_eq]

/-- **A context comes out as it went in.** -/
theorem qpcOf_eq
    (h : ∀ f, modifyQpIn.get (.qpc f) b = qpcVal q f % 2 ^ (modifyQpIn.field (.qpc f)).sz) :
    qpcOf b = q := by
  have hp := fun f => h (.primaryAddressPath f)
  have hmac : member 16 (.primaryAddressPath .rmac47To32) b ++
      member 32 (.primaryAddressPath .rmac31To0) b = q.primaryAddressPath.rmac := by
    rw [member_eq (q.primaryAddressPath.rmac.extractLsb' 32 16),
      member_eq (q.primaryAddressPath.rmac.extractLsb' 0 32)]
    · exact BitVec.extractLsb'_append_extractLsb'
    · rw [BitVec.extractLsb'_toNat]
      exact hp .rmac31To0
    · rw [BitVec.extractLsb'_toNat, Nat.mod_mod, Nat.shiftRight_eq_div_pow]
      exact hp .rmac47To32
  have hads : adsOf b = q.primaryAddressPath := by
    unfold adsOf
    rw [hmac, member_eq q.primaryAddressPath.pkeyIndex (hp _),
      member_eq q.primaryAddressPath.grh (hp _),
      member_eq q.primaryAddressPath.rlid (hp _),
      member_eq q.primaryAddressPath.ackTimeout (hp _),
      member_eq q.primaryAddressPath.srcAddrIndex (hp _),
      member_eq q.primaryAddressPath.statRate (hp _),
      member_eq q.primaryAddressPath.hopLimit (hp _),
      member_eq q.primaryAddressPath.tclass (hp _),
      member_eq q.primaryAddressPath.rgidRip (hp _),
      member_eq q.primaryAddressPath.dscp (hp _),
      member_eq q.primaryAddressPath.udpSport (hp _),
      member_eq q.primaryAddressPath.sl (hp _),
      member_eq q.primaryAddressPath.vhcaPortNum (hp _)]
  unfold qpcOf
  rw [hads, member_eq q.state (h _), member_eq q.pmState (h _), member_eq q.mtu (h _),
    member_eq q.logMsgMax (h _), member_eq q.counterSetId (h _), member_eq q.remoteQpn (h _),
    member_eq q.logAckReqFreq (h _), member_eq q.logSraMax (h _), member_eq q.retryCount (h _),
    member_eq q.rnrRetry (h _), member_eq q.nextSendPsn (h _), member_eq q.logRraMax (h _),
    member_eq q.atomicMode (h _), member_eq q.rre (h _), member_eq q.rwe (h _),
    member_eq q.rae (h _), member_eq q.minRnrNak (h _), member_eq q.nextRcvPsn (h _)]

theorem moveOf_opcode (t : Move) : moveOf ((opcode t).toNat % 2 ^ 16) = some t := by
  cases t <;> rfl

theorem qpn_message (qpn : BitVec 24) {b : Bits}
    (h : modifyQpIn.get .qpn b = (qpn.setWidth 32).toNat % 2 ^ 24) :
    BitVec.ofNat 24 (modifyQpIn.get .qpn b) = qpn := by
  rw [h, toNat_wide (by decide), Nat.mod_eq_of_lt qpn.isLt, BitVec.ofNat_toNat, BitVec.setWidth_eq]

/-- **The device reads the command that the host means.** -/
theorem decode_message (qpn : BitVec 24) (c : ModifyCmd) :
    decode (message (qpn.setWidth 32) c) = some (qpn, c) := by
  have hget := modifyQpIn.get_encode (cmdVal (qpn.setWidth 32) c)
  have hop : modifyQpIn.get .opcode (message (qpn.setWidth 32) c) =
      (opcode c.opcode).toNat % 2 ^ 16 := hget .opcode
  have hopt : modifyQpIn.get .optParamMask (message (qpn.setWidth 32) c) =
      c.optParamMask.toNat % 2 ^ 32 := hget .optParamMask
  have hqpc : qpcOf (message (qpn.setWidth 32) c) = c.qpc := qpcOf_eq fun f => hget (.qpc f)
  have hqpn : BitVec.ofNat 24 (modifyQpIn.get .qpn (message (qpn.setWidth 32) c)) = qpn :=
    qpn_message qpn (hget .qpn)
  unfold decode
  rw [hop, moveOf_opcode, hqpc, hopt, hqpn,
    Nat.mod_eq_of_lt c.optParamMask.isLt, BitVec.ofNat_toNat, BitVec.setWidth_eq]
  rfl

/-! ## The device -/

variable {D : Type*}

/-- The host's objects, and the device with all its queue pairs. -/
structure Nic (D : Type*) where
  qp : BitVec 24 → QpOpen
  hw : BitVec 24 → D

/-- A command changes the queue pair whose number it carries. -/
def firmware (sd : StoringDevice D) (hw : BitVec 24 → D) (msg : Bits) : Option (BitVec 24 → D) :=
  (decode msg).bind fun x => (sd.exec (hw x.1) x.2).map (Function.update hw x.1)

/-- The values in an answer to a query. -/
def answerVal (q : Qpc) : ModifyQpField → ℕ
  | .qpc f => qpcVal q f
  | _ => 0

/-- A query is answered with the context of the queue pair whose number it carries. -/
def answer (sd : StoringDevice D) (hw : BitVec 24 → D) (msg : Bits) : Option ByteMem :=
  if modifyQpIn.get .opcode msg = 0x50b then
    some (.ofBits (modifyQpIn.encode
      (answerVal (sd.qpc (hw (BitVec.ofNat 24 (modifyQpIn.get .qpn msg)))))))
  else none

/-! ## The calls -/

/-- A transition function, of queue pair `qpn`. -/
def transitionMsg (dev : DeviceAttr) (sd : StoringDevice D) (qpn : BitVec 24) (env : ModifyEnv)
    (a : QpAttr) (m : AttrMask) (s : Nic D) (t : Move) : Option VerbsError × Nic D :=
  match commandMsg dev env a m (qpn.setWidth 32) t with
  | .error e => (some e, s)
  | .ok msg =>
    match env.objModify with
    | some e => (some e, s)
    | none =>
      match firmware sd s.hw msg with
      | none => (some .driver, s)
      | some hw => (none, { qp := Function.update s.qp qpn (t.settle a (s.qp qpn)), hw := hw })

/-- `doca_verbs_qp_modify` on an open queue pair. -/
def modifyMsg (dev : DeviceAttr) (sd : StoringDevice D) (qpn : BitVec 24) (s : Nic D)
    (c : ModifyCall) : Option VerbsError × Nic D :=
  match c.qpAttr with
  | none => (some .invalidValue, s)
  | some a =>
    match a.validate dev c.attrMask with
    | (false, _) => (some .invalidValue, s)
    | (true, a) =>
      match dispatch (currentStateOf (s.qp qpn).currentState a c.attrMask)
          (nextStateOf (s.qp qpn).currentState a c.attrMask) with
      | none => (some .invalidValue, s)
      | some t => transitionMsg dev sd qpn c.env a c.attrMask s t

/-- `convert_prm_qp_state_to_doca_verbs_qp_state`. -/
def convertState (v : BitVec 32) : Except VerbsError QpState :=
  if v = 0 then .ok .rst
  else if v = 1 then .ok .init
  else if v = 2 then .ok .rtr
  else if v = 3 then .ok .rts
  else if v = 6 then .ok .err
  else .error .invalidValue

/-- `convert_prm_mtu_size_to_doca_verbs_mtu_size`. -/
def convertMtu (v : BitVec 32) : Except VerbsError MtuSize :=
  if v = 1 then .ok .bytes256
  else if v = 2 then .ok .bytes512
  else if v = 3 then .ok .bytes1k
  else if v = 4 then .ok .bytes2k
  else if v = 5 then .ok .bytes4k
  else if v = 7 then .ok .rawEthernet
  else .error .invalidValue

/-- `DEVX_GET` of a member of the context. -/
def devxGetQpc (out : ByteMem) (f : QpcField) : BitVec 32 :=
  devxGet 0 (modifyQpIn.field (.qpc f)).off (modifyQpIn.field (.qpc f)).sz out

/-- The address handle that a query fills in. -/
def ahAttrOf (out : ByteMem) (addrType : Option AddrType) (h : AhAttr) : AhAttr :=
  let path := fun f => devxGetQpc out (.primaryAddressPath f)
  { h with
    addrType := addrType
    dlid := path .rlid
    sl := (path .sl).setWidth 8
    sgidIndex := (path .srcAddrIndex).setWidth 8
    staticRate := (path .statRate).setWidth 8
    hopLimit := (path .hopLimit).setWidth 8
    trafficClass := (path .tclass).setWidth 8
    gid := memcpyFrom 128 ((modifyQpIn.field (.qpc (.primaryAddressPath .rgidRip))).off / 8) out }

/-- The record that a query fills in. -/
def attrOf (out : ByteMem) (qp : QpOpen) (rec : QpAttr) (state : QpState) (mtu : MtuSize) :
    QpAttr :=
  let get := devxGetQpc out
  { rec with
    currentState := some state
    nextState := some state
    pathMtu := some mtu
    rqPsn := get .nextRcvPsn
    sqPsn := get .nextSendPsn
    destQpNum := get .remoteQpn
    pkeyIndex := (get (.primaryAddressPath .pkeyIndex)).setWidth 16
    portNum := (get (.primaryAddressPath .vhcaPortNum)).setWidth 16
    ackTimeout := (get (.primaryAddressPath .ackTimeout)).setWidth 8
    counterSetId := get .counterSetId
    retryCnt := (get .retryCount).setWidth 8
    rnrRetry := (get .rnrRetry).setWidth 8
    minRnrTimer := (get .minRnrNak).setWidth 8
    allowRemoteWrite := get .rwe
    allowRemoteRead := get .rre
    maxRdAtomic := BitVec.ofNat 8 (1 <<< (get .logSraMax).toNat)
    maxDestRdAtomic := BitVec.ofNat 8 (1 <<< (get .logRraMax).toNat)
    ahAttr := if rec.ahAttrEnabled then ahAttrOf out qp.addrType rec.ahAttr else rec.ahAttr }

/-- `query_qp`, with the answer of the driver, into the record `rec`. -/
def queryMsg (out : Option ByteMem) (qp : QpOpen) (rec : QpAttr) : Except VerbsError QpAttr :=
  match out with
  | none => .error .driver
  | some out =>
    match convertState (devxGetQpc out .state) with
    | .error _ => .error .unexpected
    | .ok state =>
      match convertMtu (devxGetQpc out .mtu) with
      | .error _ => .error .unexpected
      | .ok mtu => .ok (attrOf out qp rec state mtu)

/-- The member has `w` bits, within a word. -/
def hasWidth (w : ℕ) (f : QpcField) : Bool :=
  w ≤ 32 && (modifyQpIn.field (.qpc f)).sz == w &&
    (modifyQpIn.field (.qpc f)).off % 32 + (modifyQpIn.field (.qpc f)).sz ≤ 32

theorem devxGetQpc_eq {w : ℕ} (f : QpcField) (h : hasWidth w f = true) (out : ByteMem) :
    devxGetQpc out f = (member w f out.bits).setWidth 32 := by
  obtain ⟨h, hf⟩ := Bool.and_eq_true_iff.1 h
  obtain ⟨hw, hsz⟩ := Bool.and_eq_true_iff.1 h
  have hlt : modifyQpIn.get (.qpc f) out.bits < 2 ^ w := beq_iff_eq.1 hsz ▸ Field.get_lt _ _
  apply BitVec.eq_of_toNat_eq
  unfold devxGetQpc member
  rw [toNat_devxGet (of_decide_eq_true hf), toNat_wide (of_decide_eq_true hw), BitVec.toNat_ofNat,
    Nat.mod_eq_of_lt hlt, Nat.mul_zero, Nat.zero_add]
  rfl

/-- A member that goes to a type of `u` bits. -/
theorem cut_devxGetQpc {w : ℕ} (f : QpcField) (h : hasWidth w f = true) {u : ℕ} (hu : u ≤ 32)
    (out : ByteMem) : (devxGetQpc out f).setWidth u = (member w f out.bits).setWidth u := by
  rw [devxGetQpc_eq f h, BitVec.setWidth_setWidth_of_le _ hu]

theorem convertState_setWidth (v : BitVec 4) :
    convertState (v.setWidth 32) = convertPrmQpState v := by
  have hcase : ∀ v : BitVec 4, (v.setWidth 32 = 0#32 ↔ v = 0#4) ∧ (v.setWidth 32 = 1#32 ↔ v = 1#4) ∧
      (v.setWidth 32 = 2#32 ↔ v = 2#4) ∧ (v.setWidth 32 = 3#32 ↔ v = 3#4) ∧
      (v.setWidth 32 = 6#32 ↔ v = 6#4) := by decide
  obtain ⟨h₀, h₁, h₂, h₃, h₆⟩ := hcase v
  unfold convertState convertPrmQpState
  simp only [BitVec.ofNat_eq_ofNat, h₀, h₁, h₂, h₃, h₆]

theorem convertMtu_setWidth (v : BitVec 3) : convertMtu (v.setWidth 32) = convertPrmMtuSize v := by
  have hcase : ∀ v : BitVec 3, (v.setWidth 32 = 1#32 ↔ v = 1#3) ∧ (v.setWidth 32 = 2#32 ↔ v = 2#3) ∧
      (v.setWidth 32 = 3#32 ↔ v = 3#3) ∧ (v.setWidth 32 = 4#32 ↔ v = 4#3) ∧
      (v.setWidth 32 = 5#32 ↔ v = 5#3) ∧ (v.setWidth 32 = 7#32 ↔ v = 7#3) := by decide
  obtain ⟨h₁, h₂, h₃, h₄, h₅, h₇⟩ := hcase v
  unfold convertMtu convertPrmMtuSize
  simp only [BitVec.ofNat_eq_ofNat, h₁, h₂, h₃, h₄, h₅, h₇]

theorem ahAttrOf_eq (out : ByteMem) (addrType : Option AddrType) (h : AhAttr) :
    ahAttrOf out addrType h = (adsOf out.bits).toAhAttr addrType h := by
  have hcut : 8 ≤ 32 := by decide
  have rlid := devxGetQpc_eq (w := 16) (.primaryAddressPath .rlid) rfl out
  have sl := cut_devxGetQpc (w := 4) (.primaryAddressPath .sl) rfl hcut out
  have sgid := cut_devxGetQpc (w := 8) (.primaryAddressPath .srcAddrIndex) rfl hcut out
  have rate := cut_devxGetQpc (w := 4) (.primaryAddressPath .statRate) rfl hcut out
  have hop := cut_devxGetQpc (w := 8) (.primaryAddressPath .hopLimit) rfl hcut out
  have tclass := cut_devxGetQpc (w := 8) (.primaryAddressPath .tclass) rfl hcut out
  unfold ahAttrOf Ads.toAhAttr
  simp only [rlid, sl, sgid, rate, hop, tclass, BitVec.setWidth_eq]
  rfl

theorem attrOf_eq (out : ByteMem) (qp : QpOpen) (rec : QpAttr) (state : QpState) (mtu : MtuSize) :
    attrOf out qp rec state mtu = decodeQpc (qpcOf out.bits) qp rec state mtu := by
  have hcut : 8 ≤ 32 := by decide
  have hcut' : 16 ≤ 32 := by decide
  have rqPsn := devxGetQpc_eq (w := 24) .nextRcvPsn rfl out
  have sqPsn := devxGetQpc_eq (w := 24) .nextSendPsn rfl out
  have qpn := devxGetQpc_eq (w := 24) .remoteQpn rfl out
  have counter := devxGetQpc_eq (w := 8) .counterSetId rfl out
  have rwe := devxGetQpc_eq (w := 1) .rwe rfl out
  have rre := devxGetQpc_eq (w := 1) .rre rfl out
  have sra := devxGetQpc_eq (w := 3) .logSraMax rfl out
  have rra := devxGetQpc_eq (w := 3) .logRraMax rfl out
  have pkey := cut_devxGetQpc (w := 16) (.primaryAddressPath .pkeyIndex) rfl hcut' out
  have port := cut_devxGetQpc (w := 8) (.primaryAddressPath .vhcaPortNum) rfl hcut' out
  have ack := cut_devxGetQpc (w := 5) (.primaryAddressPath .ackTimeout) rfl hcut out
  have retry := cut_devxGetQpc (w := 3) .retryCount rfl hcut out
  have rnr := cut_devxGetQpc (w := 3) .rnrRetry rfl hcut out
  have nak := cut_devxGetQpc (w := 5) .minRnrNak rfl hcut out
  unfold attrOf decodeQpc
  simp only [rqPsn, sqPsn, qpn, counter, rwe, rre, sra, rra, pkey, port, ack, retry, rnr, nak,
    toNat_wide (by decide : 3 ≤ 32), ahAttrOf_eq, BitVec.setWidth_eq]
  rfl

/-- **A query in messages** is the query of the context that the answer shows. -/
theorem queryMsg_eq (out : ByteMem) (qp : QpOpen) (rec : QpAttr) :
    queryMsg (some out) qp rec = queryQp true (qpcOf out.bits) qp rec := by
  have hstate := devxGetQpc_eq (w := 4) .state rfl out
  have hmtu := devxGetQpc_eq (w := 3) .mtu rfl out
  unfold queryMsg queryQp
  simp only [hstate, hmtu, convertState_setWidth, convertMtu_setWidth, attrOf_eq]
  rfl

/-! ## Runs -/

/-- A call of the host on a queue pair; a query also depends on whether the driver answers. -/
inductive HostCall
  | modify (qpn : BitVec 24) (c : ModifyCall)
  | query (qpn : BitVec 24) (objQuery : Bool) (rec : QpAttr)

/-- What a call returns. -/
inductive Reply
  | modified (e : Option VerbsError)
  | queried (r : Except VerbsError QpAttr)

/-- The message of a query. -/
def queryMessage (mQpNum : BitVec 32) : Bits :=
  (DevxOp.exec modifyQpIn [.set .opcode 0x50b, .set .qpn mQpNum] fun _ => 0).bits

/-- A call, in messages. -/
def stepMsg (dev : DeviceAttr) (sd : StoringDevice D) (s : Nic D) : HostCall → Reply × Nic D
  | .modify qpn c => (modifyMsg dev sd qpn s c).map .modified id
  | .query qpn objQuery rec =>
    let out := if objQuery then answer sd s.hw (queryMessage (qpn.setWidth 32)) else none
    (.queried (queryMsg out (s.qp qpn) rec), s)

/-- A call, on the records of its queue pair. -/
def step (dev : DeviceAttr) (sd : StoringDevice D) (s : Nic D) : HostCall → Reply × Nic D
  | .modify qpn c =>
    let r := Verbs.modify dev sd.toDevice { qp := s.qp qpn, hw := s.hw qpn } c
    (.modified r.1,
      { qp := Function.update s.qp qpn r.2.qp, hw := Function.update s.hw qpn r.2.hw })
  | .query qpn objQuery rec => (.queried (queryQp objQuery (sd.qpc (s.hw qpn)) (s.qp qpn) rec), s)

/-- Calls, one after the other, with what they return. -/
def run (step : Nic D → HostCall → Reply × Nic D) : Nic D → List HostCall → List Reply × Nic D
  | s, [] => ([], s)
  | s, c :: cs => ((step s c).1 :: (run step (step s c).2 cs).1, (run step (step s c).2 cs).2)

theorem answer_queryMessage (sd : StoringDevice D) (hw : BitVec 24 → D) (qpn : BitVec 24) :
    ∃ out, answer sd hw (queryMessage (qpn.setWidth 32)) = some out ∧
      qpcOf out.bits = sd.qpc (hw qpn) := by
  have hmsg : queryMessage (qpn.setWidth 32) = modifyQpIn.run
      (List.map DevxOp.write [.set .opcode 0x50b, .set .qpn (qpn.setWidth 32)]) .zero := by
    unfold queryMessage
    rw [DevxOp.bits_exec rfl, ByteMem.bits_zero]
  have hop : modifyQpIn.get .opcode (queryMessage (qpn.setWidth 32)) = 0x50b := by
    rw [hmsg, Format.get_run]
    rfl
  have hqpn : modifyQpIn.get .qpn (queryMessage (qpn.setWidth 32)) =
      (qpn.setWidth 32).toNat % 2 ^ 24 := by
    rw [hmsg, Format.get_run]
    rfl
  refine ⟨_, if_pos hop, ?_⟩
  rw [ByteMem.bits_ofBits, qpn_message qpn hqpn]
  exact qpcOf_eq fun f => modifyQpIn.get_encode _ (.qpc f)

theorem update_self (s : Nic D) (qpn : BitVec 24) :
    ({ qp := Function.update s.qp qpn (s.qp qpn)
       hw := Function.update s.hw qpn (s.hw qpn) } : Nic D) = s := by
  rw [Function.update_eq_self, Function.update_eq_self]

theorem transitionMsg_eq (dev : DeviceAttr) (sd : StoringDevice D) (qpn : BitVec 24)
    (env : ModifyEnv) (a : QpAttr) (m : AttrMask) (s : Nic D) (t : Move) :
    transitionMsg dev sd qpn env a m s t =
      let r := transition dev sd.toDevice env a m { qp := s.qp qpn, hw := s.hw qpn } t
      (r.1, { qp := Function.update s.qp qpn r.2.qp, hw := Function.update s.hw qpn r.2.hw }) := by
  unfold transitionMsg transition
  rw [commandMsg_eq]
  cases t.cmd dev env a m with
  | error e => exact Prod.ext rfl (update_self s qpn).symm
  | ok c =>
    cases henv : env.objModify with
    | some e => exact Prod.ext rfl (update_self s qpn).symm
    | none =>
      have hfw : firmware sd s.hw (message (qpn.setWidth 32) c) =
          (sd.exec (s.hw qpn) c).map (Function.update s.hw qpn) := by
        unfold firmware
        rw [decode_message]
        rfl
      simp only [Except.map, hfw]
      cases sd.exec (s.hw qpn) c with
      | none => exact Prod.ext rfl (update_self s qpn).symm
      | some d => rfl

theorem modifyMsg_eq (dev : DeviceAttr) (sd : StoringDevice D) (qpn : BitVec 24) (s : Nic D)
    (c : ModifyCall) :
    modifyMsg dev sd qpn s c =
      let r := Verbs.modify dev sd.toDevice { qp := s.qp qpn, hw := s.hw qpn } c
      (r.1, { qp := Function.update s.qp qpn r.2.qp, hw := Function.update s.hw qpn r.2.hw }) := by
  unfold modifyMsg Verbs.modify
  cases c.qpAttr with
  | none => exact Prod.ext rfl (update_self s qpn).symm
  | some a =>
    dsimp only
    cases a.validate dev c.attrMask with
    | mk ok a' =>
      cases ok with
      | false => exact Prod.ext rfl (update_self s qpn).symm
      | true =>
        dsimp only
        cases dispatch (currentStateOf (s.qp qpn).currentState a' c.attrMask)
          (nextStateOf (s.qp qpn).currentState a' c.attrMask) with
        | none => exact Prod.ext rfl (update_self s qpn).symm
        | some t => exact transitionMsg_eq dev sd qpn c.env a' c.attrMask s t

theorem stepMsg_eq (dev : DeviceAttr) (sd : StoringDevice D) (s : Nic D) (c : HostCall) :
    stepMsg dev sd s c = step dev sd s c := by
  cases c with
  | modify qpn c =>
    show (modifyMsg dev sd qpn s c).map Reply.modified id = _
    rw [modifyMsg_eq]
    rfl
  | query qpn objQuery rec =>
    cases objQuery with
    | false => rfl
    | true =>
      obtain ⟨out, hout, hqpc⟩ := answer_queryMessage sd s.hw qpn
      show (Reply.queried (queryMsg (answer sd s.hw _) _ rec), s) = _
      rw [hout, queryMsg_eq, hqpc]
      rfl

/-- **Messages do what records say.** Any sequence of calls on any queue pairs of a device that sees
nothing but messages returns, and leaves, what it does where host and device share the records. -/
theorem runMsg_eq (dev : DeviceAttr) (sd : StoringDevice D) (s : Nic D) (cs : List HostCall) :
    run (stepMsg dev sd) s cs = run (step dev sd) s cs := by
  induction cs generalizing s with
  | nil => rfl
  | cons c cs ih =>
    unfold run
    rw [stepMsg_eq, ih]

end Gpunetio.Prm
