import Gpunetio.Verbs.Ranges

/-!
# Updates by mask

Some fields of the context are optional in a transition: the device takes them only if the command
names them in `opt_param_mask`. The host computes that mask from a table, and fills in the fields
under other conditions: always, by value, by mask, or by what the device supports.

* `OptField`: the optional fields, with their parameters and attributes;
* `Applies`: a device that takes an optional field only if its bit is set; `store_applies`: the
  device of the queries is one;
* `OptField.get_cmd`, `dscp_cmd`: what a command has in the fields that its mask names;
* `MaskedUpdate`: what is asked of an update;
* **`maskedUpdate_iff`**: the commands for which it holds; `rts2rts_clears_dscp`.
-/

namespace Gpunetio.Verbs

/-- The fields that are optional in some transition. -/
inductive OptField
  | pkeyIndex
  | vhcaPortNum
  | rwe
  | rre
  | rae
  | atomicMode
  | minRnrNak
  | srcAddrIndex
  | dscp
deriving DecidableEq, Repr

namespace OptField

/-- The parameter that names the field. -/
def param : OptField → OptParam
  | pkeyIndex => .pkeyIndex
  | vhcaPortNum => .portNum
  | rwe => .rwe
  | rre => .rre
  | rae => .rae
  | atomicMode => .rae
  | minRnrNak => .minRnrNak
  | srcAddrIndex => .sgidIndex
  | dscp => .dscp

/-- The attribute behind it. -/
def attr (f : OptField) : AttrBit := f.param.attr

/-- What a context has in it. -/
def get (q : Qpc) : OptField → ℕ
  | pkeyIndex => q.primaryAddressPath.pkeyIndex.toNat
  | vhcaPortNum => q.primaryAddressPath.vhcaPortNum.toNat
  | rwe => q.rwe.toNat
  | rre => q.rre.toNat
  | rae => q.rae.toNat
  | atomicMode => q.atomicMode.toNat
  | minRnrNak => q.minRnrNak.toNat
  | srcAddrIndex => q.primaryAddressPath.srcAddrIndex.toNat
  | dscp => q.primaryAddressPath.dscp.toNat

/-- What the record asks for; an atomic mode other than none enables atomics, and the traffic class
has two bits below the DSCP. -/
def requested (a : QpAttr) : OptField → ℕ
  | pkeyIndex => a.pkeyIndex.toNat
  | vhcaPortNum => a.portNum.toNat
  | rwe => a.allowRemoteWrite.toNat
  | rre => a.allowRemoteRead.toNat
  | rae => if a.atomicMode = 0 then 0 else 1
  | atomicMode => a.atomicMode.toNat
  | minRnrNak => a.minRnrTimer.toNat
  | srcAddrIndex => a.ahAttr.sgidIndex.toNat
  | dscp => a.ahAttr.trafficClass.toNat >>> 2

end OptField

/-- The four transitions with optional fields. -/
def Move.Masked (t : Move) : Prop := t ∈ [Move.init2init, .init2rtr, .rtr2rts, .rts2rts]

/-- A device takes an optional field if its bit is set, and else keeps what it had. `takes` says
which fields it takes in a transition without a bit. -/
def Applies (takes : Move → OptParam → Bool) (c : ModifyCmd) (q q' : Qpc) : Prop :=
  ∀ f : OptField,
    f.get q' = if c.opt f.param || takes c.opcode f.param then f.get c.qpc else f.get q

/-- What is taken without a bit belongs to attributes that the transition needs. -/
def OnlyRequired (takes : Move → OptParam → Bool) : Prop :=
  ∀ t p, takes t p = true → p.attr ∈ t.required

/-- An update by mask: the optional attributes that are named have the values asked for, the fields
of those that are not named are as before, and the DSCP that comes with an address handle is its own
or as before. -/
structure MaskedUpdate (t : Move) (a : QpAttr) (m : AttrMask) (q q' : Qpc) : Prop where
  named : ∀ f : OptField, f ≠ .dscp → f.attr ∈ t.optional → m.has f.attr →
    f.get q' = f.requested a
  unnamed : ∀ f : OptField, ¬ m.has f.attr → f.get q' = f.get q
  dscp : m.has .ahAttr →
    OptField.dscp.get q' = OptField.dscp.requested a ∨ OptField.dscp.get q' = OptField.dscp.get q

/-- The address has the second version of RoCE. -/
def isRoceV2 : Except VerbsError (BitVec 8) → Bool
  | .ok v => 2#8 ≤ v
  | .error _ => false

/-- The command has a DSCP: the port is Ethernet, the address is of RoCE v2, and `rts2rts` is
supported with one. -/
def carriesDscp (dev : DeviceAttr) (env : ModifyEnv) (t : Move) : Bool :=
  dev.portTypeEth && (t = .init2rtr || dev.isRts2rtsQpDscpSupported) && isRoceV2 env.roceVersion

/-- The flags are 0 or 1, the other values fit their fields, and where a DSCP is taken the command
has one, or none was asked for, or none was there. -/
structure UpdateFits (takes : Move → OptParam → Bool) (dev : DeviceAttr) (env : ModifyEnv)
    (t : Move) (a : QpAttr) (m : AttrMask) (q : Qpc) : Prop where
  allowRemoteWrite : m.has .allowRemoteWrite → a.allowRemoteWrite.toNat ≤ 1
  allowRemoteRead : m.has .allowRemoteRead → a.allowRemoteRead.toNat ≤ 1
  atomicMode : m.has .atomicMode → a.atomicMode.toNat < 2 ^ 4
  minRnrTimer : AttrBit.minRnrTimer ∈ t.optional → m.has .minRnrTimer →
    a.minRnrTimer.toNat < 2 ^ 5
  dscp : m.has .ahAttr → t = .rts2rts ∨ takes t .dscp → carriesDscp dev env t ∨
    OptField.dscp.requested a = 0 ∨ OptField.dscp.get q = 0

/-! ## What a command has -/

section Cmd

variable {dev : DeviceAttr} {env : ModifyEnv} {a : QpAttr} {m : AttrMask} {t : Move}
  {c : ModifyCmd}

/-- The bits of a command name the optional attributes that its mask names. -/
theorem opt_cmd (h : t.cmd dev env a m = .ok c) (ht : t.Masked) (p : OptParam) :
    c.opt p = (m.has p.attr && decide (p.attr ∈ t.optional)) := by
  have hmask : c.optParamMask = convertToOptParamMask m t := by
    unfold Move.Masked at ht
    cases t with
    | init2rtr =>
      obtain ⟨-, prmMtu, mac, roceVersion, -, rfl⟩ := init2rtrCmd_ok h
      rfl
    | rts2rts =>
      obtain ⟨roceVersion, -, rfl⟩ := rts2rtsCmd_ok h
      rfl
    | init2init =>
      obtain ⟨-, h⟩ := ok_of_guard h
      cases h
      rfl
    | rtr2rts =>
      obtain ⟨-, h⟩ := ok_of_guard h
      cases h
      rfl
    | _ => exact absurd ht (by decide)
  have htable : (validOptMask t).has p.attr = decide (p.attr ∈ t.optional) := by
    unfold Move.Masked at ht
    cases t <;> first | exact absurd ht (by decide) | (cases p <;> decide)
  unfold ModifyCmd.opt
  rw [hmask, getLsbD_convertToOptParamMask, htable]

theorem toNat_rwe (a : QpAttr) : a.rwe.toNat = if a.allowRemoteWrite = 1 then 1 else 0 := by
  unfold QpAttr.rwe
  split <;> rfl

theorem toNat_rre (hm : m.has .allowRemoteRead) :
    (a.rre m).toNat = if a.allowRemoteRead = 1 then 1 else 0 := by
  rw [QpAttr.rre_of_has hm]
  split <;> rfl

theorem toNat_rae (hm : m.has .atomicMode) :
    (a.rae m).toNat = if a.atomicMode = 0 then 0 else 1 := by
  unfold QpAttr.rae
  simp only [hm, true_and, ne_eq, ite_not]
  split <;> rfl

theorem toNat_atomicModeBits (hm : m.has .atomicMode) :
    (a.atomicModeBits m).toNat = a.atomicMode.toNat % 2 ^ 4 := by
  unfold QpAttr.atomicModeBits
  simp only [hm, true_and, ne_eq, ite_not]
  split
  · rename_i hnone
    rw [hnone]
    rfl
  · exact BitVec.toNat_setWidth ..

/-- What the encoders make of a value. -/
def OptField.written (a : QpAttr) : OptField → ℕ
  | pkeyIndex => a.pkeyIndex.toNat
  | vhcaPortNum => a.portNum.toNat % 2 ^ 8
  | rwe => if a.allowRemoteWrite = 1 then 1 else 0
  | rre => if a.allowRemoteRead = 1 then 1 else 0
  | rae => if a.atomicMode = 0 then 0 else 1
  | atomicMode => a.atomicMode.toNat % 2 ^ 4
  | minRnrNak => a.minRnrTimer.toNat % 2 ^ 5
  | srcAddrIndex => a.ahAttr.sgidIndex.toNat
  | dscp => a.ahAttr.trafficClass.toNat >>> 2

/-- The fields of a command that its mask names, but for the DSCP. -/
theorem OptField.get_cmd (h : t.cmd dev env a m = .ok c) (ht : t.Masked) {f : OptField}
    (hf : f ≠ .dscp) (hopt : f.attr ∈ t.optional) (hm : m.has f.attr) :
    f.get c.qpc = f.written a := by
  unfold Move.Masked at ht
  cases t with
  | init2init =>
    obtain ⟨-, h⟩ := ok_of_guard h
    cases h
    cases f
    case pkeyIndex => rfl
    case vhcaPortNum => exact BitVec.toNat_setWidth ..
    case rwe => exact toNat_rwe a
    case rre => exact toNat_rre hm
    case rae => exact toNat_rae hm
    case atomicMode => exact toNat_atomicModeBits hm
    all_goals exact absurd hopt (by decide)
  | init2rtr =>
    obtain ⟨-, prmMtu, mac, roceVersion, -, rfl⟩ := init2rtrCmd_ok h
    cases f
    case pkeyIndex => rfl
    case rwe => exact toNat_rwe a
    case rre => exact toNat_rre hm
    case rae => exact toNat_rae hm
    case atomicMode => exact toNat_atomicModeBits hm
    all_goals exact absurd hopt (by decide)
  | rtr2rts =>
    obtain ⟨-, h⟩ := ok_of_guard h
    cases h
    cases f
    case rwe => exact toNat_rwe a
    case rae => exact toNat_rae hm
    case atomicMode => exact toNat_atomicModeBits hm
    case minRnrNak => exact (congrArg BitVec.toNat (if_pos hm)).trans (BitVec.toNat_setWidth ..)
    all_goals exact absurd hopt (by decide)
  | rts2rts =>
    obtain ⟨roceVersion, -, rfl⟩ := rts2rtsCmd_ok h
    cases f
    case rwe => exact toNat_rwe a
    case rre => exact toNat_rre hm
    case rae => exact toNat_rae hm
    case atomicMode => exact toNat_atomicModeBits hm
    case minRnrNak => exact (congrArg BitVec.toNat (if_pos hm)).trans (BitVec.toNat_setWidth ..)
    case srcAddrIndex => exact congrArg BitVec.toNat (if_pos hm)
    case dscp => exact absurd rfl hf
    all_goals exact absurd hopt (by decide)
  | _ => exact absurd ht (by decide)

/-- The answer of a call that is made in some cases. -/
theorem any_of_callIf {b : Bool} {x : Except VerbsError (BitVec 8)} {r : Option (BitVec 8)}
    (h : callIf b x = .ok r) :
    (r.any fun v => 2#8 ≤ v) = (b && isRoceV2 x) := by
  cases b with
  | false =>
    cases h
    rfl
  | true =>
    cases x with
    | error e => cases h
    | ok v =>
      cases h
      rfl

/-- A successful `init2rtr` has asked for the RoCE version on an Ethernet port. -/
theorem init2rtrCmd_roceVersion (h : init2rtrCmd dev env a m = .ok c) :
    ∃ prmMtu mac roceVersion, callIf dev.portTypeEth env.roceVersion = .ok roceVersion ∧
      c.qpc = init2rtrQpc a m prmMtu (init2rtrPath a env.udpSport mac roceVersion) := by
  obtain ⟨-, h⟩ := ok_of_guard h
  split at h
  · cases h
  · obtain ⟨prmMtu, -, h⟩ := ok_of_bind h
    obtain ⟨mac, -, h⟩ := ok_of_bind h
    obtain ⟨roceVersion, hcall, h⟩ := ok_of_bind h
    cases h
    exact ⟨prmMtu, mac, roceVersion, hcall, rfl⟩

/-- The upper six bits of a traffic class, if they are written. -/
theorem toNat_dscpIf (v : BitVec 8) (b : Bool) :
    (if b then (v >>> 2).setWidth 6 else 0#6).toNat = if b then v.toNat >>> 2 else 0 := by
  have hlt := v.isLt
  cases b with
  | false => rfl
  | true =>
    rw [if_pos rfl, if_pos rfl, BitVec.toNat_setWidth, BitVec.toNat_ushiftRight,
      Nat.shiftRight_eq_div_pow]
    exact Nat.mod_eq_of_lt (by omega)

/-- The DSCP of a command with an address handle. -/
theorem dscp_cmd (h : t.cmd dev env a m = .ok c) (ht : t.Masked) (hm : m.has .ahAttr) :
    OptField.dscp.get c.qpc = if carriesDscp dev env t then OptField.dscp.requested a else 0 := by
  have hmem := (Move.cmd_ok h).2.mem hm
  unfold Move.Masked at ht
  cases t with
  | init2rtr =>
    obtain ⟨prmMtu, mac, roceVersion, hcall, hq⟩ := init2rtrCmd_roceVersion h
    have hcarries : carriesDscp dev env .init2rtr = roceVersion.any fun v => 2#8 ≤ v := by
      rw [any_of_callIf hcall]
      unfold carriesDscp
      rw [decide_eq_true rfl, Bool.true_or, Bool.and_true]
    rw [hq, hcarries]
    exact toNat_dscpIf a.ahAttr.trafficClass _
  | rts2rts =>
    obtain ⟨roceVersion, hcall, rfl⟩ := rts2rtsCmd_ok h
    have hcarries : carriesDscp dev env .rts2rts = roceVersion.any fun v => 2#8 ≤ v := by
      rw [any_of_callIf hcall, hm, Bool.true_and, Bool.and_comm dev.isRts2rtsQpDscpSupported]
      unfold carriesDscp
      rw [decide_eq_false (by decide), Bool.false_or]
    rw [hcarries]
    exact toNat_dscpIf a.ahAttr.trafficClass _
  | _ => first | exact absurd ht (by decide) | exact absurd hmem (by decide)

end Cmd

/-! ## The update -/

theorem written_cutPsns (a : QpAttr) (m : AttrMask) (f : OptField) :
    f.written (a.cutPsns m) = f.written a := by
  cases f <;> rfl

section Update

variable {dev : DeviceAttr} {env : ModifyEnv} {a : QpAttr} {m : AttrMask} {t : Move}
  {c : ModifyCmd} {takes : Move → OptParam → Bool} {q q' : Qpc}

/-- A field whose attribute is named. -/
theorem get_of_named (h : t.cmd dev env (a.cutPsns m) m = .ok c) (ht : t.Masked)
    (hq : Applies takes c q q') {f : OptField} (hf : f ≠ .dscp) (hopt : f.attr ∈ t.optional)
    (hm : m.has f.attr) : f.get q' = f.written a := by
  have hbit : c.opt f.param = true := by
    rw [opt_cmd h ht, Bool.and_eq_true]
    exact ⟨hm, decide_eq_true hopt⟩
  rw [hq f, hbit, Bool.true_or, if_pos rfl, OptField.get_cmd h ht hf hopt hm, written_cutPsns]

/-- A field whose attribute is not named. -/
theorem get_of_unnamed (h : t.cmd dev env (a.cutPsns m) m = .ok c) (ht : t.Masked)
    (htakes : OnlyRequired takes) (hq : Applies takes c q q') {f : OptField}
    (hm : ¬ m.has f.attr) : f.get q' = f.get q := by
  have hbit : c.opt f.param = false := by
    rw [opt_cmd h ht, Bool.and_eq_false_iff]
    exact .inl (Bool.eq_false_iff.2 hm)
  have hreq : takes t f.param = false := by
    apply Bool.eq_false_iff.2
    intro htake
    exact hm ((Move.cmd_ok h).2.complete _ (htakes t f.param htake))
  rw [hq f, hbit, (Move.cmd_ok h).1, hreq, Bool.or_false, if_neg Bool.false_ne_true]

/-- The DSCP after an address handle. -/
theorem get_dscp (h : t.cmd dev env (a.cutPsns m) m = .ok c) (ht : t.Masked)
    (hq : Applies takes c q q') (hm : m.has .ahAttr) :
    OptField.dscp.get q' =
      if t = .rts2rts ∨ takes t .dscp then
        if carriesDscp dev env t then OptField.dscp.requested a else 0
      else OptField.dscp.get q := by
  have hmem : (AttrBit.ahAttr ∈ t.optional) ↔ t = .rts2rts := by
    cases t <;> decide
  have hbit : c.opt .dscp = decide (t = .rts2rts) := by
    have hattr : OptParam.dscp.attr = .ahAttr := rfl
    rw [opt_cmd h ht, hattr, hm, Bool.true_and, decide_eq_decide]
    exact hmem
  have hcmd := dscp_cmd h ht hm
  have hparam : OptField.dscp.param = .dscp := rfl
  rw [hq .dscp, hparam, hbit, (Move.cmd_ok h).1, hcmd]
  refine if_congr ?_ rfl rfl
  rw [Bool.or_eq_true, decide_eq_true_iff]

/-- The attributes that the four transitions do not need are optional in them. -/
theorem Move.Masked.optional (ht : t.Masked) (h : t.MaskOk m) {b : AttrBit} (hm : m.has b)
    (hb : b ∈ [AttrBit.allowRemoteWrite, .allowRemoteRead, .atomicMode]) : b ∈ t.optional := by
  have hmem := h.mem hm
  unfold Move.Masked at ht
  revert hmem hb ht
  cases t <;> cases b <;> decide

end Update

/-- A flag that is 0 or 1 is written as it is. -/
theorem flag_eq_iff (x : BitVec 32) : (if x = 1 then 1 else 0) = x.toNat ↔ x.toNat ≤ 1 := by
  constructor
  · intro h
    rw [← h]
    split <;> decide
  · intro h
    have hcases : x.toNat = 0 ∨ x.toNat = 1 := by omega
    split
    · rename_i hone
      rw [hone]
      rfl
    · rename_i hone
      refine (hcases.resolve_right fun h1 => hone ?_).symm
      exact BitVec.eq_of_toNat_eq h1

/-- **Updates by mask.** For every command of the four transitions that a call issues, every device
that takes optional fields by their bits, and every context: the update is as the mask says exactly
if the values fit, and where the DSCP is taken the command has it, or it is 0 before or after. -/
theorem maskedUpdate_iff {dev : DeviceAttr} (hport : dev.physPortCnt < 2 ^ 8)
    {takes : Move → OptParam → Bool} (htakes : OnlyRequired takes) {tracked : QpState}
    {call : ModifyCall} {a : QpAttr} {c : ModifyCmd} (hattr : call.qpAttr = some a)
    (h : issued dev tracked call = some c) (ht : c.opcode.Masked) {q q' : Qpc}
    (hq : Applies takes c q q') :
    MaskedUpdate c.opcode a call.attrMask q q' ↔
      UpdateFits takes dev call.env c.opcode a call.attrMask q := by
  obtain ⟨a₀, t, ha, hvalid, hcmd⟩ := issued_eq_some h
  obtain rfl : a₀ = a := Option.some.inj (ha.symm.trans hattr)
  obtain ⟨rfl, hmask⟩ := Move.cmd_ok hcmd
  have hnum := (ranges_of_validate hvalid).2.2
  have hdscp := fun hm => get_dscp hcmd ht hq hm
  constructor
  · intro hu
    -- a field that is named is written as it was asked for
    have hnamed : ∀ f : OptField, f ≠ .dscp → f.attr ∈ c.opcode.optional →
        call.attrMask.has f.attr → f.written a₀ = f.requested a₀ := fun f hf hopt hm =>
      (get_of_named hcmd ht hq hf hopt hm).symm.trans (hu.named f hf hopt hm)
    have hflag := fun b hb hm => ht.optional hmask (b := b) hm hb
    refine ⟨fun hm => ?_, fun hm => ?_, fun hm => ?_, fun hopt hm => ?_, fun hm htaken => ?_⟩
    · exact (flag_eq_iff _).1 (hnamed .rwe (by decide) (hflag .allowRemoteWrite (by decide) hm) hm)
    · exact (flag_eq_iff _).1 (hnamed .rre (by decide) (hflag .allowRemoteRead (by decide) hm) hm)
    · exact Nat.mod_eq_iff_lt (by decide) |>.1
        (hnamed .atomicMode (by decide) (hflag .atomicMode (by decide) hm) hm)
    · exact Nat.mod_eq_iff_lt (by decide) |>.1 (hnamed .minRnrNak (by decide) hopt hm)
    · by_cases hcarries : carriesDscp dev call.env c.opcode
      · exact .inl hcarries
      · have hclause := hu.dscp hm
        rw [hdscp hm, if_pos htaken, if_neg hcarries] at hclause
        exact .inr (hclause.imp Eq.symm Eq.symm)
  · intro hfits
    refine ⟨fun f hf hopt hm => ?_, fun f hm => get_of_unnamed hcmd ht htakes hq hm, fun hm => ?_⟩
    · rw [get_of_named hcmd ht hq hf hopt hm]
      cases f
      case vhcaPortNum => exact Nat.mod_eq_of_lt (Nat.lt_of_le_of_lt (hnum hm).2 hport)
      case rwe => exact (flag_eq_iff _).2 (hfits.allowRemoteWrite hm)
      case rre => exact (flag_eq_iff _).2 (hfits.allowRemoteRead hm)
      case atomicMode => exact Nat.mod_eq_of_lt (hfits.atomicMode hm)
      case minRnrNak => exact Nat.mod_eq_of_lt (hfits.minRnrTimer hopt hm)
      case dscp => exact absurd rfl hf
      all_goals rfl
    · rw [hdscp hm]
      by_cases htaken : c.opcode = .rts2rts ∨ takes c.opcode .dscp = true
      · rw [if_pos htaken]
        obtain hcarries | hzero | hzero := hfits.dscp hm htaken
        · rw [if_pos hcarries]
          exact .inl rfl
        · rw [hzero, ite_self]
          exact .inl rfl
        · rw [hzero]
          split
          · exact .inl rfl
          · exact .inr rfl
      · rw [if_neg htaken]
        exact .inr rfl

/-- What the context needs of a transition: `init2rtr` takes the path and the timer as they are. -/
def takesRequired (t : Move) (p : OptParam) : Bool := t = .init2rtr && p.attr ∈ t.required

theorem onlyRequired_takesRequired : OnlyRequired takesRequired := by
  intro t p h
  unfold takesRequired at h
  rw [Bool.and_eq_true, decide_eq_true_iff, decide_eq_true_iff] at h
  exact h.2

/-- The device of the queries takes the optional fields so. -/
theorem store_applies {dev : DeviceAttr} {env : ModifyEnv} {a : QpAttr} {m : AttrMask} {t : Move}
    {c : ModifyCmd} (h : t.cmd dev env a m = .ok c) (ht : t.Masked) (q : Qpc) :
    Applies takesRequired c q (c.store q) := by
  obtain ⟨rfl, -⟩ := Move.cmd_ok h
  have hkeep : ∀ p : OptParam, p.attr ∉ c.opcode.optional → c.opt p = false := fun p hp => by
    rw [opt_cmd h ht, decide_eq_false hp, Bool.and_false]
  have hgive : ∀ {w : ℕ} (p : OptParam) (given kept : BitVec w),
      (c.storeIf p given kept).toNat = if c.opt p || false then given.toNat else kept.toNat := by
    intro w p given kept
    rw [Bool.or_false]
    exact apply_ite BitVec.toNat ..
  clear h
  unfold Applies ModifyCmd.store Move.Masked at *
  intro f
  generalize c.opcode = t at *
  cases t with
  | init2init =>
    cases f
    case minRnrNak => rw [hkeep _ (by decide)]; rfl
    case srcAddrIndex => rw [hkeep _ (by decide)]; rfl
    case dscp => rw [hkeep _ (by decide)]; rfl
    all_goals exact hgive ..
  | init2rtr =>
    cases f
    case vhcaPortNum => rw [hkeep _ (by decide)]; rfl
    case minRnrNak => rw [hkeep _ (by decide)]; rfl
    case srcAddrIndex => rw [hkeep _ (by decide)]; rfl
    case dscp => rw [hkeep _ (by decide)]; rfl
    all_goals exact hgive ..
  | rtr2rts =>
    cases f
    case pkeyIndex => rw [hkeep _ (by decide)]; rfl
    case vhcaPortNum => rw [hkeep _ (by decide)]; rfl
    case rre => rw [hkeep _ (by decide)]; rfl
    case srcAddrIndex => rw [hkeep _ (by decide)]; rfl
    case dscp => rw [hkeep _ (by decide)]; rfl
    all_goals exact hgive ..
  | rts2rts =>
    cases f
    case pkeyIndex => rw [hkeep _ (by decide)]; rfl
    case vhcaPortNum => rw [hkeep _ (by decide)]; rfl
    all_goals exact hgive ..
  | _ => exact absurd ht (by decide)

/-- A device without support for a DSCP in `rts2rts`. -/
def DeviceAttr.legacy : DeviceAttr := { DeviceAttr.single with isRts2rtsQpDscpSupported := false }

/-- A change of the address handle of a running queue pair. -/
def ahCall (h : AhAttr) : ModifyCall :=
  { qpAttr := some (bringUpAttr h .rts), attrMask := orMask [.nextState, .ahAttr], env := .quiet }

/-- A context with this DSCP. -/
def tagged (dscp : BitVec 6) : Qpc :=
  { Qpc.zero with primaryAddressPath := { Ads.zero with dscp := dscp } }

theorem ahCall_masked :
    ∃ c, issued .single .rts (ahCall (ipv4Addr 32)) = some c ∧
      MaskedUpdate .rts2rts (bringUpAttr (ipv4Addr 32) .rts) (ahCall (ipv4Addr 32)).attrMask
        (tagged 4) (c.store (tagged 4)) := by
  have hcall : issued .single .rts (ahCall (ipv4Addr 32)) = some _ := rfl
  refine ⟨_, hcall, ?_⟩
  have hmasked : Move.rts2rts.Masked := by
    unfold Move.Masked
    decide
  obtain ⟨a, t, -, -, hcmd⟩ := issued_eq_some hcall
  obtain ⟨rfl, -⟩ := Move.cmd_ok hcmd
  have happlies := store_applies hcmd hmasked (tagged 4)
  refine (maskedUpdate_iff (by decide : DeviceAttr.single.physPortCnt < 2 ^ 8)
    onlyRequired_takesRequired rfl hcall hmasked happlies).2 ?_
  exact ⟨by decide, by decide, by decide, by decide, by decide⟩

/-- Without that support the DSCP of 4 is replaced neither by the 8 asked for nor kept. -/
theorem rts2rts_clears_dscp :
    ∃ c, issued .legacy .rts (ahCall (ipv4Addr 32)) = some c ∧
      Applies (fun _ _ => false) c (tagged 4) (c.store (tagged 4)) ∧
      ¬ MaskedUpdate .rts2rts (bringUpAttr (ipv4Addr 32) .rts) (ahCall (ipv4Addr 32)).attrMask
        (tagged 4) (c.store (tagged 4)) := by
  refine ⟨_, rfl, ?_, fun h => ?_⟩
  · intro f
    cases f <;> decide
  · exact absurd (h.dscp (by decide)) (by decide)

end Gpunetio.Verbs
