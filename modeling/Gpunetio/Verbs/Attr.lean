import Mathlib.Algebra.Group.Nat.Defs
import Mathlib.Data.List.Basic

/-!
# QP attributes and their masks

`doca_verbs_qp_modify` takes a record of attributes and a mask that says which of them the caller
has set. Before a transition the host checks the values under set bits, and that the mask holds the
attributes the transition requires and no others than it allows.

* `AttrBit`, `AttrMask`, `QpAttr`: the attributes, their bits, and the record;
* `QpAttr.validate`: the value checks, which also cut the packet numbers to 24 bits;
* `isRst2initAttrsValid` to `isX2errAttrsValid`: the mask checks of the seven transitions;
* `Move`: the seven transitions with their end states, required and allowed attributes;
* **`Move.attrsValid_iff`**: each mask check accepts exactly the masks its transition's tables
  allow.
-/

namespace Gpunetio.Verbs

/-- `doca_verbs_qp_state`. -/
inductive QpState
  | rst
  | init
  | rtr
  | rts
  | err
deriving DecidableEq, Repr

/-- `doca_verbs_addr_type`. -/
inductive AddrType
  | ipv4
  | ipv6
  | ibGrh
  | ibNoGrh
deriving DecidableEq, Repr

/-- `doca_verbs_mtu_size`. -/
inductive MtuSize
  | bytes256
  | bytes512
  | bytes1k
  | bytes2k
  | bytes4k
  | rawEthernet
deriving DecidableEq, Repr

/-- `DOCA_VERBS_QP_ATTR_*`. -/
inductive AttrBit
  | allowRemoteWrite
  | allowRemoteRead
  | pkeyIndex
  | minRnrTimer
  | portNum
  | nextState
  | currentState
  | pathMtu
  | rqPsn
  | sqPsn
  | destQpNum
  | ackTimeout
  | retryCnt
  | rnrRetry
  | ahAttr
  | atomicMode
  | maxQpRdAtomic
  | maxDestRdAtomic
deriving DecidableEq, Repr

/-- The position of the bit. -/
def AttrBit.shift : AttrBit → ℕ
  | .allowRemoteWrite => 0
  | .allowRemoteRead => 1
  | .pkeyIndex => 2
  | .minRnrTimer => 3
  | .portNum => 4
  | .nextState => 5
  | .currentState => 6
  | .pathMtu => 7
  | .rqPsn => 8
  | .sqPsn => 9
  | .destQpNum => 10
  | .ackTimeout => 11
  | .retryCnt => 12
  | .rnrRetry => 13
  | .ahAttr => 14
  | .atomicMode => 15
  | .maxQpRdAtomic => 16
  | .maxDestRdAtomic => 17

/-- `int attr_mask`. -/
abbrev AttrMask := BitVec 32

/-- The mask with this bit alone. -/
def AttrBit.mask (a : AttrBit) : AttrMask := 1#32 <<< a.shift

/-- `attr_mask & attr`, as a condition. -/
def AttrMask.has (m : AttrMask) (a : AttrBit) : Bool := m &&& a.mask != 0#32

theorem AttrBit.shift_lt (a : AttrBit) : a.shift < 32 := by cases a <;> decide

theorem AttrBit.getLsbD_mask (a : AttrBit) (i : ℕ) :
    a.mask.getLsbD i = decide (i = a.shift) := by
  have h := a.shift_lt
  simp only [mask, BitVec.getLsbD_shiftLeft, BitVec.getLsbD_one]
  by_cases hi : i = a.shift
  · simp [hi, h]
  · simp [hi]
    omega

theorem AttrMask.has_eq_getLsbD (m : AttrMask) (a : AttrBit) : m.has a = m.getLsbD a.shift := by
  have h : m &&& a.mask = if m.getLsbD a.shift then a.mask else 0#32 := by
    apply BitVec.eq_of_getLsbD_eq
    intro i hi
    rw [BitVec.getLsbD_and, a.getLsbD_mask]
    by_cases hia : i = a.shift
    · subst hia
      cases m.getLsbD a.shift <;> simp [a.getLsbD_mask]
    · cases m.getLsbD a.shift <;> simp [hia, a.getLsbD_mask]
  have hne : a.mask ≠ 0#32 := by cases a <;> decide
  unfold has
  rw [h]
  cases m.getLsbD a.shift <;> simp [hne]

/-- The mask of several attributes. -/
def orMask (l : List AttrBit) : AttrMask := l.foldr (fun a m => a.mask ||| m) 0#32

theorem getLsbD_orMask (l : List AttrBit) (i : ℕ) :
    (orMask l).getLsbD i = decide (∃ a ∈ l, a.shift = i) := by
  induction l with
  | nil => simp [orMask]
  | cons a l ih =>
    have hc : orMask (a :: l) = a.mask ||| orMask l := rfl
    rw [hc, BitVec.getLsbD_or, ih, a.getLsbD_mask]
    simp [eq_comm]

/-- `doca_verbs_ah_attr_open`; `none` is a type outside the enumeration. -/
structure AhAttr where
  gid : BitVec 128
  addrType : Option AddrType
  dlid : BitVec 32
  sl : BitVec 8
  sgidIndex : BitVec 8
  staticRate : BitVec 8
  hopLimit : BitVec 8
  trafficClass : BitVec 8
  isGlobal : BitVec 8
deriving DecidableEq, Repr

/-- `doca_verbs_qp_attr_open`; `none` is a value outside the enumeration. -/
structure QpAttr where
  nextState : Option QpState
  currentState : Option QpState
  pathMtu : Option MtuSize
  rqPsn : BitVec 32
  sqPsn : BitVec 32
  destQpNum : BitVec 32
  allowRemoteWrite : BitVec 32
  allowRemoteRead : BitVec 32
  atomicMode : BitVec 32
  ahAttr : AhAttr
  ahAttrEnabled : Bool
  pkeyIndex : BitVec 16
  portNum : BitVec 16
  ackTimeout : BitVec 8
  retryCnt : BitVec 8
  rnrRetry : BitVec 8
  minRnrTimer : BitVec 8
  maxRdAtomic : BitVec 8
  maxDestRdAtomic : BitVec 8
  counterSetId : BitVec 32
deriving DecidableEq, Repr

/-- The record of `doca_verbs_qp_attr_create`. -/
def QpAttr.create : QpAttr :=
  { nextState := some .rst, currentState := some .rst, pathMtu := some .bytes256, rqPsn := 0
    sqPsn := 0, destQpNum := 0, allowRemoteWrite := 0, allowRemoteRead := 0, atomicMode := 0
    ahAttr :=
      { gid := 0, addrType := some .ipv4, dlid := 0, sl := 0, sgidIndex := 0, staticRate := 0
        hopLimit := 0, trafficClass := 0, isGlobal := 0 }
    ahAttrEnabled := false, pkeyIndex := 0, portNum := 0, ackTimeout := 0, retryCnt := 0
    rnrRetry := 0, minRnrTimer := 0, maxRdAtomic := 0, maxDestRdAtomic := 0, counterSetId := 0 }

/-- `doca_verbs_device_attr`, as far as a modify call reads it. -/
structure DeviceAttr where
  gidTableSize : ℕ
  maxPkeys : ℕ
  physPortCnt : ℕ
  portTypeEth : Bool
  isRts2rtsQpDscpSupported : Bool

/-- `is_qp_attr_path_mtu_valid`. -/
def isQpAttrPathMtuValid : Option MtuSize → Bool
  | none => false
  | some .rawEthernet => false
  | some _ => true

/-- `is_qp_attr_queue_psn_valid`: a number that is too long is cut. -/
def isQpAttrQueuePsnValid (psn : BitVec 32) : BitVec 32 :=
  if psn &&& ~~~0xffffff#32 != 0#32 then psn &&& 0xffffff#32 else psn

/-- The packet numbers under set bits are cut. -/
def QpAttr.cutPsns (a : QpAttr) (m : AttrMask) : QpAttr :=
  { a with
    rqPsn := if m.has .rqPsn then isQpAttrQueuePsnValid a.rqPsn else a.rqPsn
    sqPsn := if m.has .sqPsn then isQpAttrQueuePsnValid a.sqPsn else a.sqPsn }

/-- `is_qp_attr_valid`: the verdict, and the record with the packet numbers cut. -/
def QpAttr.validate (dev : DeviceAttr) (a : QpAttr) (m : AttrMask) : Bool × QpAttr :=
  if m.has .currentState && a.currentState.isNone then (false, a)
  else if m.has .nextState && a.nextState.isNone then (false, a)
  else if m.has .pathMtu && !isQpAttrPathMtuValid a.pathMtu then (false, a)
  else
    let a := a.cutPsns m
    if m.has .ahAttr && a.ahAttr.addrType.isNone then (false, a)
    else if m.has .ahAttr && decide (dev.gidTableSize ≤ a.ahAttr.sgidIndex.toNat) then (false, a)
    else if m.has .pkeyIndex && decide (dev.maxPkeys < a.pkeyIndex.toNat) then (false, a)
    else if m.has .portNum &&
        decide (dev.physPortCnt < a.portNum.toNat ∨ a.portNum.toNat < 1) then (false, a)
    else (true, a)

/-! ## The mask checks -/

/-- `attr_mask & ~valid_attr` is zero. -/
def onlyAttrs (valid m : AttrMask) : Bool := m &&& ~~~valid == 0#32

/-- `(required_attr & attr_mask) == required_attr`. -/
def allAttrs (required m : AttrMask) : Bool := required &&& m == required

/-- `rst2init_requested_attr`. -/
def rst2initRequestedAttr : AttrMask :=
  AttrBit.mask .pkeyIndex ||| AttrBit.mask .portNum ||| AttrBit.mask .allowRemoteWrite |||
    AttrBit.mask .allowRemoteRead

/-- `init2rtr_requested_attr`. -/
def init2rtrRequestedAttr : AttrMask :=
  AttrBit.mask .rqPsn ||| AttrBit.mask .destQpNum ||| AttrBit.mask .pathMtu |||
    AttrBit.mask .ahAttr ||| AttrBit.mask .minRnrTimer

/-- `rtr2rts_requested_attr`. -/
def rtr2rtsRequestedAttr : AttrMask :=
  AttrBit.mask .sqPsn ||| AttrBit.mask .ackTimeout ||| AttrBit.mask .retryCnt |||
    AttrBit.mask .rnrRetry

/-- `init2init_optional_attr`. -/
def init2initOptionalAttr : AttrMask :=
  AttrBit.mask .currentState ||| AttrBit.mask .nextState ||| AttrBit.mask .pkeyIndex |||
    AttrBit.mask .portNum ||| AttrBit.mask .allowRemoteWrite ||| AttrBit.mask .allowRemoteRead |||
    AttrBit.mask .atomicMode

/-- `init2rtr_optional_attr`. -/
def init2rtrOptionalAttr : AttrMask :=
  AttrBit.mask .currentState ||| AttrBit.mask .nextState ||| AttrBit.mask .pkeyIndex |||
    AttrBit.mask .allowRemoteWrite ||| AttrBit.mask .allowRemoteRead |||
    AttrBit.mask .atomicMode ||| AttrBit.mask .maxDestRdAtomic

/-- `rtr2rts_optional_attr`. -/
def rtr2rtsOptionalAttr : AttrMask :=
  AttrBit.mask .currentState ||| AttrBit.mask .nextState ||| AttrBit.mask .minRnrTimer |||
    AttrBit.mask .allowRemoteWrite ||| AttrBit.mask .atomicMode ||| AttrBit.mask .maxQpRdAtomic

/-- `rts2rts_optional_attr`. -/
def rts2rtsOptionalAttr : AttrMask :=
  AttrBit.mask .currentState ||| AttrBit.mask .nextState ||| AttrBit.mask .allowRemoteWrite |||
    AttrBit.mask .allowRemoteRead ||| AttrBit.mask .atomicMode ||| AttrBit.mask .minRnrTimer |||
    AttrBit.mask .ahAttr

/-- `is_X2rst_attrs_valid`. -/
def isX2rstAttrsValid (m : AttrMask) : Bool :=
  onlyAttrs (AttrBit.mask .currentState ||| AttrBit.mask .nextState) m

/-- `is_X2err_attrs_valid`. -/
def isX2errAttrsValid (m : AttrMask) : Bool :=
  onlyAttrs (AttrBit.mask .currentState ||| AttrBit.mask .nextState) m

/-- `is_rst2init_attrs_valid`. -/
def isRst2initAttrsValid (m : AttrMask) : Bool :=
  onlyAttrs (rst2initRequestedAttr ||| AttrBit.mask .currentState ||| AttrBit.mask .nextState |||
    AttrBit.mask .atomicMode) m && allAttrs rst2initRequestedAttr m

/-- `is_init2init_attrs_valid`. -/
def isInit2initAttrsValid (m : AttrMask) : Bool := onlyAttrs init2initOptionalAttr m

/-- `is_init2rtr_attrs_valid`. -/
def isInit2rtrAttrsValid (m : AttrMask) : Bool :=
  onlyAttrs (init2rtrRequestedAttr ||| init2rtrOptionalAttr) m && allAttrs init2rtrRequestedAttr m

/-- `is_rtr2rts_attrs_valid`. -/
def isRtr2rtsAttrsValid (m : AttrMask) : Bool :=
  onlyAttrs (rtr2rtsRequestedAttr ||| rtr2rtsOptionalAttr) m && allAttrs rtr2rtsRequestedAttr m

/-- `is_rts2rts_attrs_valid`. -/
def isRts2rtsAttrsValid (m : AttrMask) : Bool := onlyAttrs rts2rtsOptionalAttr m

/-! ## The transitions -/

/-- The seven transitions of an RC queue pair. -/
inductive Move
  | rst2init
  | init2init
  | init2rtr
  | rtr2rts
  | rts2rts
  | qp2err
  | qp2rst
deriving DecidableEq, Repr

namespace Move

/-- The state a transition starts from; `none` is any state. -/
def source : Move → Option QpState
  | rst2init => some .rst
  | init2init => some .init
  | init2rtr => some .init
  | rtr2rts => some .rtr
  | rts2rts => some .rts
  | qp2err => none
  | qp2rst => none

/-- The state it leads to. -/
def target : Move → QpState
  | rst2init => .init
  | init2init => .init
  | init2rtr => .rtr
  | rtr2rts => .rts
  | rts2rts => .rts
  | qp2err => .err
  | qp2rst => .rst

/-- The transition may be taken in this state. -/
def From (t : Move) (s : QpState) : Prop := ∀ s' ∈ t.source, s' = s

instance (t : Move) (s : QpState) : Decidable (t.From s) :=
  inferInstanceAs (Decidable (∀ s' ∈ t.source, s' = s))

/-- The attributes that the transition needs. -/
def required : Move → List AttrBit
  | rst2init => [.pkeyIndex, .portNum, .allowRemoteWrite, .allowRemoteRead]
  | init2rtr => [.rqPsn, .destQpNum, .pathMtu, .ahAttr, .minRnrTimer]
  | rtr2rts => [.sqPsn, .ackTimeout, .retryCnt, .rnrRetry]
  | _ => []

/-- The other attributes that it may carry; the two states may always be given. -/
def optional : Move → List AttrBit
  | rst2init => [.atomicMode]
  | init2init => [.pkeyIndex, .portNum, .allowRemoteWrite, .allowRemoteRead, .atomicMode]
  | init2rtr => [.pkeyIndex, .allowRemoteWrite, .allowRemoteRead, .atomicMode, .maxDestRdAtomic]
  | rtr2rts => [.minRnrTimer, .allowRemoteWrite, .atomicMode, .maxQpRdAtomic]
  | rts2rts => [.allowRemoteWrite, .allowRemoteRead, .atomicMode, .minRnrTimer, .ahAttr]
  | qp2err => []
  | qp2rst => []

/-- All attributes that it may carry. -/
def allowed (t : Move) : List AttrBit := .currentState :: .nextState :: (t.required ++ t.optional)

/-- The mask names every required attribute, and every bit of it is an allowed one. -/
structure MaskOk (t : Move) (m : AttrMask) : Prop where
  complete : ∀ a ∈ t.required, m.has a
  permitted : ∀ i, m.getLsbD i → ∃ a ∈ t.allowed, a.shift = i

/-- The check that the transition function makes. -/
def attrsValid : Move → AttrMask → Bool
  | rst2init => isRst2initAttrsValid
  | init2init => isInit2initAttrsValid
  | init2rtr => isInit2rtrAttrsValid
  | rtr2rts => isRtr2rtsAttrsValid
  | rts2rts => isRts2rtsAttrsValid
  | qp2err => isX2errAttrsValid
  | qp2rst => isX2rstAttrsValid

end Move

theorem AttrBit.shift_injective : Function.Injective AttrBit.shift := by
  intro a b h
  cases a <;> cases b <;> first | rfl | cases h

/-- A legal mask names allowed attributes only. -/
theorem Move.MaskOk.mem {t : Move} {m : AttrMask} (h : t.MaskOk m) {a : AttrBit} (ha : m.has a) :
    a ∈ t.allowed := by
  rw [AttrMask.has_eq_getLsbD] at ha
  obtain ⟨b, hb, hs⟩ := h.permitted _ ha
  rwa [← AttrBit.shift_injective hs]

theorem Move.MaskOk.not_has {t : Move} {m : AttrMask} (h : t.MaskOk m) {a : AttrBit}
    (ha : a ∉ t.allowed) : ¬ m.has a := fun hm => ha (h.mem hm)

theorem onlyAttrs_iff (l : List AttrBit) (m : AttrMask) :
    onlyAttrs (orMask l) m ↔ ∀ i, m.getLsbD i → ∃ a ∈ l, a.shift = i := by
  unfold onlyAttrs
  rw [beq_iff_eq, BitVec.eq_of_getLsbD_eq_iff]
  constructor
  · intro h i hm
    have hi : i < 32 := BitVec.lt_of_getLsbD hm
    have hv := h i hi
    rw [BitVec.getLsbD_and, BitVec.getLsbD_not, hm, getLsbD_orMask] at hv
    simpa only [hi, decide_true, Bool.true_and, BitVec.getLsbD_zero, Bool.not_eq_eq_eq_not,
      Bool.not_false, decide_eq_true_eq] using hv
  · intro h i hi
    cases hm : m.getLsbD i with
    | false => simp [hm]
    | true => simp [hm, hi, getLsbD_orMask, h i hm]

theorem allAttrs_iff (l : List AttrBit) (m : AttrMask) :
    allAttrs (orMask l) m ↔ ∀ a ∈ l, m.has a := by
  unfold allAttrs
  rw [beq_iff_eq, BitVec.eq_of_getLsbD_eq_iff]
  constructor
  · intro h a ha
    have := h a.shift a.shift_lt
    have hl : (orMask l).getLsbD a.shift := by
      rw [getLsbD_orMask, decide_eq_true_iff]
      exact ⟨a, ha, rfl⟩
    rw [AttrMask.has_eq_getLsbD]
    simpa [hl] using this
  · intro h i hi
    rw [BitVec.getLsbD_and]
    cases hl : (orMask l).getLsbD i with
    | false => rfl
    | true =>
      rw [getLsbD_orMask, decide_eq_true_iff] at hl
      obtain ⟨a, ha, rfl⟩ := hl
      rw [← AttrMask.has_eq_getLsbD, h a ha, Bool.true_and]

/-- The check of each transition, from its tables. -/
theorem Move.attrsValid_eq (t : Move) (m : AttrMask) :
    t.attrsValid m = (onlyAttrs (orMask t.allowed) m && allAttrs (orMask t.required) m) := by
  have hnone : ∀ m, allAttrs (orMask []) m = true := fun m => by simp [allAttrs, orMask]
  cases t with
  | rst2init => rfl
  | init2rtr => rfl
  | rtr2rts => rfl
  | _ =>
    show _ = (_ && allAttrs (orMask []) m)
    rw [hnone, Bool.and_true]
    rfl

/-- **The mask checks.** A transition function accepts a mask exactly if it names all the required
attributes and allowed ones only. -/
theorem Move.attrsValid_iff (t : Move) (m : AttrMask) : t.attrsValid m ↔ t.MaskOk m := by
  rw [t.attrsValid_eq, Bool.and_eq_true, onlyAttrs_iff, allAttrs_iff]
  exact ⟨fun h => ⟨h.2, h.1⟩, fun h => ⟨h.permitted, h.complete⟩⟩

end Gpunetio.Verbs
