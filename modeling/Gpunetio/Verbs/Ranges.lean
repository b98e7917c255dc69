import Gpunetio.Verbs.Query

/-!
# Which values reach the device

A modify call checks some of its attributes and writes them all into bit fields. What the caller
has asked for is wider: the setters of four attributes take 16 bits and keep 8.

* `Request`: what the caller passes to the setters; `Request.call`: the call it then makes;
* `issued`: the command that a call gives to the driver; `modify_of_not_issued`;
* `Field`, `Field.get_cmd`: the fields that a command carries hold the low bits of what was asked;
* `Request.InRange`, `Tight`: what the checks should see to;
* **`tight_iff`**: the requests for which they do; `pkey_index_at_limit`.
-/

namespace Gpunetio.Verbs

/-! ## Requests -/

/-- `doca_verbs_qp_attr_set_ack_timeout`. -/
def QpAttr.setAckTimeout (a : QpAttr) (ackTimeout : BitVec 16) : QpAttr :=
  { a with ackTimeout := ackTimeout.setWidth 8 }

/-- `doca_verbs_qp_attr_set_retry_cnt`. -/
def QpAttr.setRetryCnt (a : QpAttr) (retryCnt : BitVec 16) : QpAttr :=
  { a with retryCnt := retryCnt.setWidth 8 }

/-- `doca_verbs_qp_attr_set_rnr_retry`. -/
def QpAttr.setRnrRetry (a : QpAttr) (rnrRetry : BitVec 16) : QpAttr :=
  { a with rnrRetry := rnrRetry.setWidth 8 }

/-- `doca_verbs_qp_attr_set_min_rnr_timer`. -/
def QpAttr.setMinRnrTimer (a : QpAttr) (minRnrTimer : BitVec 16) : QpAttr :=
  { a with minRnrTimer := minRnrTimer.setWidth 8 }

/-- The four arguments that are wider than the record, the rest of the record, and the call. -/
structure Request where
  base : QpAttr
  ackTimeout : BitVec 16
  retryCnt : BitVec 16
  rnrRetry : BitVec 16
  minRnrTimer : BitVec 16
  attrMask : AttrMask
  env : ModifyEnv

/-- The record after the setters. -/
def Request.attr (r : Request) : QpAttr :=
  (((r.base.setAckTimeout r.ackTimeout).setRetryCnt r.retryCnt).setRnrRetry
    r.rnrRetry).setMinRnrTimer r.minRnrTimer

theorem Request.attr_eq (r : Request) :
    r.attr =
      { r.base with
        ackTimeout := r.ackTimeout.setWidth 8
        retryCnt := r.retryCnt.setWidth 8
        rnrRetry := r.rnrRetry.setWidth 8
        minRnrTimer := r.minRnrTimer.setWidth 8 } := rfl

theorem Request.attr_ahAttr (r : Request) : r.attr.ahAttr = r.base.ahAttr := by
  rw [r.attr_eq]

/-- The call with this record. -/
def Request.call (r : Request) : ModifyCall :=
  { qpAttr := some r.attr, attrMask := r.attrMask, env := r.env }

theorem QpAttr.cutPsns_ahAttr (a : QpAttr) (m : AttrMask) : (a.cutPsns m).ahAttr = a.ahAttr := rfl

/-! ## Commands -/

/-- The command that a call gives to the driver, if it gets so far. -/
def issued (dev : DeviceAttr) (tracked : QpState) (c : ModifyCall) : Option ModifyCmd :=
  match c.qpAttr with
  | none => none
  | some a =>
    match a.validate dev c.attrMask with
    | (false, _) => none
    | (true, a) =>
      match dispatch (currentStateOf tracked a c.attrMask) (nextStateOf tracked a c.attrMask) with
      | none => none
      | some t => (t.cmd dev c.env a c.attrMask).toOption

/-- A call that issues no command fails, and changes nothing. -/
theorem modify_of_not_issued {D : Type*} {dev : DeviceAttr} {hw : Device D} {s : ModifySys D}
    {c : ModifyCall} (h : issued dev s.qp.currentState c = none) :
    ∃ e, modify dev hw s c = (some e, s) := by
  unfold issued at h
  unfold modify
  cases hattr : c.qpAttr with
  | none => exact ⟨_, rfl⟩
  | some a =>
    rw [hattr] at h
    dsimp only at h ⊢
    generalize a.validate dev c.attrMask = v at h ⊢
    obtain ⟨verdict, a'⟩ := v
    cases verdict with
    | false => exact ⟨_, rfl⟩
    | true =>
      dsimp only at h ⊢
      cases hmove : dispatch (currentStateOf s.qp.currentState a' c.attrMask)
          (nextStateOf s.qp.currentState a' c.attrMask) with
      | none => exact ⟨_, rfl⟩
      | some t =>
        rw [hmove] at h
        dsimp only at h ⊢
        unfold transition
        cases hcmd : t.cmd dev c.env a' c.attrMask with
        | error e => exact ⟨e, rfl⟩
        | ok cmd =>
          rw [hcmd] at h
          cases h

/-- What a call has checked when it issues a command. -/
theorem issued_eq_some {dev : DeviceAttr} {tracked : QpState} {c : ModifyCall} {cmd : ModifyCmd}
    (h : issued dev tracked c = some cmd) :
    ∃ (a : QpAttr) (t : Move), c.qpAttr = some a ∧
      a.validate dev c.attrMask = (true, a.cutPsns c.attrMask) ∧
      t.cmd dev c.env (a.cutPsns c.attrMask) c.attrMask = .ok cmd := by
  unfold issued at h
  split at h
  · cases h
  · rename_i a hattr
    split at h
    · cases h
    · rename_i a' hvalid
      split at h
      · cases h
      · rename_i t hmove
        obtain ⟨rfl, -⟩ := validate_true hvalid
        refine ⟨a, t, hattr, hvalid, ?_⟩
        cases hcmd : t.cmd dev c.env (a.cutPsns c.attrMask) c.attrMask with
        | error e =>
          rw [hcmd] at h
          cases h
        | ok cmd' =>
          rw [hcmd] at h
          rw [Option.some.inj h]

/-- The value checks see to three attributes. -/
theorem ranges_of_validate {dev : DeviceAttr} {a a' : QpAttr} {m : AttrMask}
    (h : a.validate dev m = (true, a')) :
    (m.has .ahAttr → a.ahAttr.sgidIndex.toNat < dev.gidTableSize) ∧
      (m.has .pkeyIndex → a.pkeyIndex.toNat ≤ dev.maxPkeys) ∧
      (m.has .portNum → 1 ≤ a.portNum.toNat ∧ a.portNum.toNat ≤ dev.physPortCnt) := by
  unfold QpAttr.validate at h
  dsimp only at h
  split_ifs at h with hcur hnext hmtu htype hsgid hpkey hport
  all_goals cases h
  refine ⟨fun hm => ?_, fun hm => ?_, fun hm => ?_⟩
  · rw [hm, Bool.true_and, decide_eq_true_iff, Nat.not_le] at hsgid
    exact hsgid
  · rw [hm, Bool.true_and, decide_eq_true_iff, Nat.not_lt] at hpkey
    exact hpkey
  · rw [hm, Bool.true_and, decide_eq_true_iff, not_or, Nat.not_lt, Nat.not_lt] at hport
    exact ⟨hport.2, hport.1⟩

/-- A successful `rts2rts` has found the address handle set. -/
theorem rts2rtsCmd_ok {dev : DeviceAttr} {env : ModifyEnv} {a : QpAttr} {m : AttrMask}
    {c : ModifyCmd} (h : rts2rtsCmd dev env a m = .ok c) :
    ∃ roceVersion,
      callIf (m.has .ahAttr && (dev.isRts2rtsQpDscpSupported && dev.portTypeEth))
        env.roceVersion = .ok roceVersion ∧
      c =
        { opcode := .rts2rts
          optParamMask := convertToOptParamMask m .rts2rts
          qpc :=
            { Qpc.zero with
              minRnrNak := if m.has .minRnrTimer then a.minRnrTimer.setWidth 5 else 0
              rwe := a.rwe
              rre := a.rre m
              rae := a.rae m
              atomicMode := a.atomicModeBits m
              primaryAddressPath :=
                { Ads.zero with
                  srcAddrIndex := if m.has .ahAttr then a.ahAttr.sgidIndex else 0
                  dscp :=
                    if roceVersion.any fun v => 2#8 ≤ v then
                      (a.ahAttr.trafficClass >>> 2).setWidth 6 else 0 } } } := by
  obtain ⟨-, h⟩ := ok_of_guard h
  split at h
  · cases h
  · obtain ⟨roceVersion, hcall, h⟩ := ok_of_bind h
    cases h
    exact ⟨roceVersion, hcall, rfl⟩

/-! ## Fields -/

/-- The fields that carry single attributes. -/
inductive Field
  | pkeyIndex
  | vhcaPortNum
  | ackTimeout
  | retryCount
  | rnrRetry
  | minRnrNak
  | remoteQpn
  | srcAddrIndex
  | statRate
  | sl
  | rlid
deriving DecidableEq, Repr

namespace Field

/-- The bit of the mask under which it is given. -/
def attr : Field → AttrBit
  | pkeyIndex => .pkeyIndex
  | vhcaPortNum => .portNum
  | ackTimeout => .ackTimeout
  | retryCount => .retryCnt
  | rnrRetry => .rnrRetry
  | minRnrNak => .minRnrTimer
  | remoteQpn => .destQpNum
  | srcAddrIndex => .ahAttr
  | statRate => .ahAttr
  | sl => .ahAttr
  | rlid => .ahAttr

/-- Its bits in the command. -/
def width : Field → ℕ
  | pkeyIndex => 16
  | vhcaPortNum => 8
  | ackTimeout => 5
  | retryCount => 3
  | rnrRetry => 3
  | minRnrNak => 5
  | remoteQpn => 24
  | srcAddrIndex => 8
  | statRate => 4
  | sl => 4
  | rlid => 16

/-- What a command has in it. -/
def get (q : Qpc) : Field → ℕ
  | pkeyIndex => q.primaryAddressPath.pkeyIndex.toNat
  | vhcaPortNum => q.primaryAddressPath.vhcaPortNum.toNat
  | ackTimeout => q.primaryAddressPath.ackTimeout.toNat
  | retryCount => q.retryCount.toNat
  | rnrRetry => q.rnrRetry.toNat
  | minRnrNak => q.minRnrNak.toNat
  | remoteQpn => q.remoteQpn.toNat
  | srcAddrIndex => q.primaryAddressPath.srcAddrIndex.toNat
  | statRate => q.primaryAddressPath.statRate.toNat
  | sl => q.primaryAddressPath.sl.toNat
  | rlid => q.primaryAddressPath.rlid.toNat

/-- What the record has for it. -/
def value (a : QpAttr) : Field → ℕ
  | pkeyIndex => a.pkeyIndex.toNat
  | vhcaPortNum => a.portNum.toNat
  | ackTimeout => a.ackTimeout.toNat
  | retryCount => a.retryCnt.toNat
  | rnrRetry => a.rnrRetry.toNat
  | minRnrNak => a.minRnrTimer.toNat
  | remoteQpn => a.destQpNum.toNat
  | srcAddrIndex => a.ahAttr.sgidIndex.toNat
  | statRate => a.ahAttr.staticRate.toNat
  | sl => a.ahAttr.sl.toNat
  | rlid => a.ahAttr.dlid.toNat

/-- What the caller has asked for. -/
def requested (r : Request) : Field → ℕ
  | ackTimeout => r.ackTimeout.toNat
  | retryCount => r.retryCnt.toNat
  | rnrRetry => r.rnrRetry.toNat
  | minRnrNak => r.minRnrTimer.toNat
  | f => f.value r.base

/-- The command carries the field, if its mask names the attribute. Of an address handle `rts2rts`
takes the index alone, and `init2rtr` what the type of the address has. -/
def carried (t : Move) (h : AhAttr) : Field → Bool
  | srcAddrIndex => t = .rts2rts || h.addrType != some .ibNoGrh
  | statRate => t = .init2rtr
  | sl => t = .init2rtr && h.isIb
  | rlid => t = .init2rtr && h.isIb
  | _ => true

/-- The fields whose values no check looks at. -/
def unchecked : List Field :=
  [ackTimeout, retryCount, rnrRetry, minRnrNak, remoteQpn, statRate, sl, rlid]

/-- A field that is carried has the low bits of the value. -/
theorem get_cmd {dev : DeviceAttr} {env : ModifyEnv} {a : QpAttr} {m : AttrMask} {t : Move}
    {c : ModifyCmd} (h : t.cmd dev env a m = .ok c) (f : Field) (hm : m.has f.attr)
    (hc : f.carried t a.ahAttr) : f.get c.qpc = f.value a % 2 ^ f.width := by
  have hmem := (Move.cmd_ok h).2.mem hm
  have hpkey : a.pkeyIndex.toNat = a.pkeyIndex.toNat % 2 ^ 16 :=
    (Nat.mod_eq_of_lt a.pkeyIndex.isLt).symm
  have hsgid : a.ahAttr.sgidIndex.toNat = a.ahAttr.sgidIndex.toNat % 2 ^ 8 :=
    (Nat.mod_eq_of_lt a.ahAttr.sgidIndex.isLt).symm
  cases t with
  | rst2init =>
    obtain ⟨-, h⟩ := ok_of_guard h
    cases h
    cases f
    case pkeyIndex => exact hpkey
    case vhcaPortNum => exact BitVec.toNat_setWidth ..
    all_goals exact absurd hmem (by decide)
  | init2init =>
    obtain ⟨-, h⟩ := ok_of_guard h
    cases h
    cases f
    case pkeyIndex => exact hpkey
    case vhcaPortNum => exact BitVec.toNat_setWidth ..
    all_goals exact absurd hmem (by decide)
  | init2rtr =>
    obtain ⟨-, prmMtu, mac, roceVersion, -, rfl⟩ := init2rtrCmd_ok h
    cases f
    case pkeyIndex => exact hpkey
    case minRnrNak =>
      exact (congrArg BitVec.toNat (if_pos hm)).trans (BitVec.toNat_setWidth ..)
    case remoteQpn => exact BitVec.toNat_setWidth ..
    case statRate => exact BitVec.toNat_setWidth ..
    case srcAddrIndex =>
      have hgrh : a.ahAttr.addrType ≠ some .ibNoGrh := by simpa [carried] using hc
      exact (congrArg BitVec.toNat (if_pos hgrh)).trans hsgid
    case sl =>
      have hib : a.ahAttr.isIb := by simpa [carried] using hc
      exact (congrArg BitVec.toNat (if_pos hib)).trans (BitVec.toNat_setWidth ..)
    case rlid =>
      have hib : a.ahAttr.isIb := by simpa [carried] using hc
      exact (congrArg BitVec.toNat (if_pos hib)).trans (BitVec.toNat_setWidth ..)
    all_goals exact absurd hmem (by decide)
  | rtr2rts =>
    obtain ⟨-, h⟩ := ok_of_guard h
    cases h
    cases f
    case ackTimeout =>
      exact (congrArg BitVec.toNat (if_pos hm)).trans (BitVec.toNat_setWidth ..)
    case retryCount =>
      exact (congrArg BitVec.toNat (if_pos hm)).trans (BitVec.toNat_setWidth ..)
    case rnrRetry =>
      exact (congrArg BitVec.toNat (if_pos hm)).trans (BitVec.toNat_setWidth ..)
    case minRnrNak =>
      exact (congrArg BitVec.toNat (if_pos hm)).trans (BitVec.toNat_setWidth ..)
    all_goals exact absurd hmem (by decide)
  | rts2rts =>
    obtain ⟨roceVersion, -, rfl⟩ := rts2rtsCmd_ok h
    cases f
    case minRnrNak =>
      exact (congrArg BitVec.toNat (if_pos hm)).trans (BitVec.toNat_setWidth ..)
    case srcAddrIndex => exact (congrArg BitVec.toNat (if_pos hm)).trans hsgid
    case statRate => exact absurd hc Bool.false_ne_true
    case sl => exact absurd hc Bool.false_ne_true
    case rlid => exact absurd hc Bool.false_ne_true
    all_goals exact absurd hmem (by decide)
  | qp2err =>
    cases f
    all_goals exact absurd hmem (by decide)
  | qp2rst =>
    cases f
    all_goals exact absurd hmem (by decide)

/-- The setters keep the bits that the field has. -/
theorem value_attr (r : Request) (f : Field) :
    f.value r.attr % 2 ^ f.width = f.requested r % 2 ^ f.width := by
  have hset : ∀ (v : BitVec 16) (w : ℕ), w ≤ 8 →
      (v.setWidth 8).toNat % 2 ^ w = v.toNat % 2 ^ w := by
    intro v w hw
    rw [BitVec.toNat_setWidth]
    exact Nat.mod_mod_of_dvd _ (Nat.pow_dvd_pow 2 hw)
  rw [r.attr_eq]
  cases f
  case ackTimeout => exact hset _ 5 (by decide)
  case retryCount => exact hset _ 3 (by decide)
  case rnrRetry => exact hset _ 3 (by decide)
  case minRnrNak => exact hset _ 5 (by decide)
  all_goals rfl

/-- The checks change packet numbers only. -/
theorem value_cutPsns (a : QpAttr) (m : AttrMask) (f : Field) :
    f.value (a.cutPsns m) = f.value a := by
  cases f <;> rfl

end Field

/-! ## Requests in range -/

/-- Every attribute that is named is in range, for the device and for its field. -/
structure Request.InRange (dev : DeviceAttr) (r : Request) : Prop where
  pkeyIndex : r.attrMask.has .pkeyIndex → r.base.pkeyIndex.toNat < dev.maxPkeys
  sgidIndex : r.attrMask.has .ahAttr → r.base.ahAttr.sgidIndex.toNat < dev.gidTableSize
  portNum : r.attrMask.has .portNum →
    1 ≤ r.base.portNum.toNat ∧ r.base.portNum.toNat ≤ dev.physPortCnt
  fits : ∀ f : Field, r.attrMask.has f.attr → f.requested r < 2 ^ f.width

/-- A command that is issued is in range and has in its fields what was asked for; a call that
issues none returns an error. -/
def Tight {D : Type*} (dev : DeviceAttr) (hw : Device D) (s : ModifySys D) (r : Request) : Prop :=
  (∀ c, issued dev s.qp.currentState r.call = some c → r.InRange dev ∧
    ∀ f : Field, r.attrMask.has f.attr → f.carried c.opcode r.base.ahAttr →
      f.get c.qpc = f.requested r) ∧
  (issued dev s.qp.currentState r.call = none → ∃ e, modify dev hw s r.call = (some e, s))

/-- What no check looks at fits, and a partition key is not at the limit. -/
structure Request.Bounded (dev : DeviceAttr) (r : Request) : Prop where
  pkeyIndex : r.attrMask.has .pkeyIndex → r.base.pkeyIndex.toNat ≠ dev.maxPkeys
  fits : ∀ f ∈ Field.unchecked, r.attrMask.has f.attr → f.requested r < 2 ^ f.width

/-- What the checks leave out is all that is missing. -/
theorem inRange_of_issued {dev : DeviceAttr} {tracked : QpState} {r : Request} {c : ModifyCmd}
    (hport : dev.physPortCnt < 2 ^ 8) (h : issued dev tracked r.call = some c)
    (hbound : r.Bounded dev) : r.InRange dev := by
  obtain ⟨a, t, ha, hvalid, -⟩ := issued_eq_some h
  obtain rfl : r.attr = a := Option.some.inj ha
  have hranges := ranges_of_validate hvalid
  rw [r.attr_eq] at hranges
  dsimp only [Request.call] at hranges
  obtain ⟨hsgid, hpkey, hnum⟩ := hranges
  refine ⟨fun hm => ?_, hsgid, hnum, fun f hm => ?_⟩
  · exact Nat.lt_of_le_of_ne (hpkey hm) (hbound.pkeyIndex hm)
  · cases f
    case pkeyIndex => exact r.base.pkeyIndex.isLt
    case vhcaPortNum => exact Nat.lt_of_le_of_lt (hnum hm).2 hport
    case srcAddrIndex => exact r.base.ahAttr.sgidIndex.isLt
    all_goals exact hbound.fits _ (by decide) hm

/-- **The value checks.** For every request and every device with at most 255 ports: the checks are
tight exactly if no command is issued, or the values that they do not look at fit and no partition
key is at the limit. -/
theorem tight_iff {D : Type*} {dev : DeviceAttr} (hport : dev.physPortCnt < 2 ^ 8)
    (hw : Device D) (s : ModifySys D) (r : Request) :
    Tight dev hw s r ↔
      ((issued dev s.qp.currentState r.call).isSome → r.Bounded dev) := by
  constructor
  · intro h hsome
    obtain ⟨c, hc⟩ := Option.isSome_iff_exists.1 hsome
    have hrange := (h.1 c hc).1
    exact ⟨fun hm => Nat.ne_of_lt (hrange.pkeyIndex hm), fun f _ => hrange.fits f⟩
  · intro h
    refine ⟨fun c hc => ?_, modify_of_not_issued⟩
    have hbound := h (Option.isSome_iff_exists.2 ⟨c, hc⟩)
    have hrange := inRange_of_issued hport hc hbound
    refine ⟨hrange, fun f hm hcarried => ?_⟩
    obtain ⟨a, t, ha, -, hcmd⟩ := issued_eq_some hc
    obtain rfl : r.attr = a := Option.some.inj ha
    obtain ⟨rfl, -⟩ := Move.cmd_ok hcmd
    rw [← r.attr_ahAttr, ← r.attr.cutPsns_ahAttr r.attrMask] at hcarried
    have hget := Field.get_cmd hcmd f hm hcarried
    rw [Field.value_cutPsns, Field.value_attr] at hget
    rw [hget]
    exact Nat.mod_eq_of_lt (hrange.fits f hm)

/-- A request for `INIT` with this partition key. -/
def initRequest (pkeyIndex : BitVec 16) : Request where
  base := { bringUpAttr QpAttr.create.ahAttr .init with pkeyIndex := pkeyIndex }
  ackTimeout := 0
  retryCnt := 0
  rnrRetry := 0
  minRnrTimer := 0
  attrMask := (initCall QpAttr.create.ahAttr).attrMask
  env := .quiet

/-- A created queue pair on the plain device. -/
def createdSys : ModifySys QpState :=
  { qp := { addrType := none, currentState := .rst }, hw := .rst }

theorem initRequest_tight : Tight .single .plain createdSys (initRequest 0) := by
  refine (tight_iff (by decide : DeviceAttr.single.physPortCnt < 2 ^ 8) .plain createdSys
    (initRequest 0)).2 fun _ => ?_
  refine ⟨fun _ => by decide, fun f hf hm => ?_⟩
  revert hm
  revert f
  decide

/-- The first partition key that the device does not have goes through. -/
theorem pkey_index_at_limit :
    (issued .single .rst (initRequest 1).call).isSome ∧
      ¬ Tight .single .plain createdSys (initRequest 1) := by
  have hissued : (issued .single .rst (initRequest 1).call).isSome := by decide
  refine ⟨hissued, fun h => ?_⟩
  obtain ⟨c, hc⟩ := Option.isSome_iff_exists.1 hissued
  exact absurd ((h.1 c hc).1.pkeyIndex (by decide)) (by decide)

end Gpunetio.Verbs
