import Gpunetio.Door.Submit
import Gpunetio.Lib.Loop

/-!
# Choosing how to submit

`submit` and `submit_multi_qps` choose between the submissions with and without a doorbell record
and the CPU proxy, each in its own way. Here a call is taken as a whole, as it runs when no other
thread works on its QPs.

* `NicHandler`, `SharingMode`, `skipDbRinging`, `cpuProxyUpdatePi`: the template arguments and the
  bits of `code_opt`;
* `Backend`, `submitBackend`, `submitMultiBackend`: the two dispatches;
* `Door.submit`: one QP; `submitMultiQps`: an array of QPs;
* `submitMultiQps_apply`: what an array submission does to each of its QPs;
* **`submitMultiQps_iff`**: when an array submission is the submissions one by one.
-/

namespace Gpunetio

open Relation

/-- `doca_gpu_dev_verbs_nic_handler`. -/
inductive NicHandler
  | auto
  | cpuProxy
  | gpuSmDb
  | gpuSmBf
  | gpuSmNoDbr
deriving DecidableEq, Repr

/-- `doca_gpu_dev_verbs_resource_sharing_mode`. -/
inductive SharingMode
  | exclusive
  | cta
  | gpu
deriving DecidableEq, Repr

/-- `code_opt & DOCA_GPUNETIO_VERBS_GPU_CODE_OPT_SKIP_DB_RINGING`. -/
def skipDbRinging (codeOpt : BitVec 32) : Bool := codeOpt &&& 1#32 <<< 2 ≠ 0#32

/-- `code_opt & DOCA_GPUNETIO_VERBS_GPU_CODE_OPT_CPU_PROXY_UPDATE_PI`. -/
def cpuProxyUpdatePi (codeOpt : BitVec 32) : Bool := codeOpt &&& 1#32 <<< 3 ≠ 0#32

/-- The three ways to submit. -/
inductive Backend
  | db
  | noDbr
  | proxy
deriving DecidableEq, Repr

/-- The dispatch on the handler of a QP, for the template argument `AUTO`. -/
def autoBackend (qpNicHandler : NicHandler) : Backend :=
  if qpNicHandler = .gpuSmDb then .db
  else if qpNicHandler = .gpuSmNoDbr then .noDbr
  else .proxy

/-- The dispatch of `doca_gpu_dev_verbs_submit`. -/
def submitBackend (nicHandler qpNicHandler : NicHandler) : Backend :=
  if nicHandler = .auto then autoBackend qpNicHandler
  else if nicHandler = .gpuSmDb then .db
  else if qpNicHandler = .gpuSmNoDbr then .noDbr
  else .proxy

/-- The dispatch of `doca_gpu_dev_verbs_submit_multi_qps`. -/
def submitMultiBackend (nicHandler qpNicHandler : NicHandler) : Backend :=
  if nicHandler = .auto then autoBackend qpNicHandler
  else if nicHandler = .gpuSmDb then .db
  else if nicHandler = .gpuSmNoDbr then .noDbr
  else .proxy

namespace Door

/-- `sq_wqe_pi`, the last doorbell value or the proxy word, and the doorbell record. -/
def words (d : Door) : ℕ × BitVec 64 × BitVec 32 := (d.sqWqePi, d.sqDb, d.sqDbrec)

/-- `doca_gpu_dev_verbs_lock`, once the lock is free. -/
def lock (d : Door) : Door := { d with sqLock := true }

/-- `doca_gpu_dev_verbs_submit_db`. -/
def submitDb (qpnDs codeOpt : BitVec 32) (p : ℕ) (d : Door) : Door :=
  if skipDbRinging codeOpt then d
  else
    let d₁ := d.lock.exec qpnDs (.db p) .atomicMax
    let d₂ := if d.won (.db p) then
        ((d₁.exec qpnDs (.db p) .ringFirst).exec qpnDs (.db p) .updateDbr).exec qpnDs (.db p)
          .ringSecond
      else d₁
    d₂.exec qpnDs (.db p) .unlock

/-- `doca_gpu_dev_verbs_submit_db_no_dbr`. -/
def submitDbNoDbr (qpnDs codeOpt : BitVec 32) (p : ℕ) (d : Door) : Door :=
  if skipDbRinging codeOpt then d
  else
    let d₁ := d.exec qpnDs (.db p) .atomicMax
    if d.won (.db p) then d₁.ringDb qpnDs p else d₁

/-- The proxy word after `doca_gpu_dev_verbs_ring_proxy`. -/
def proxyWord (mode : SharingMode) (p : ℕ) (word : BitVec 64) : BitVec 64 :=
  match mode with
  | .exclusive => BitVec.ofNat 64 p
  | .cta | .gpu => BitVec.ofNat 64 (max word.toNat p)

/-- `doca_gpu_dev_verbs_ring_proxy`. -/
def ringProxy (mode : SharingMode) (p : ℕ) (d : Door) : Door :=
  { d with sqDb := proxyWord mode p d.sqDb }

/-- `doca_gpu_dev_verbs_submit_proxy`. -/
def submitProxy (mode : SharingMode) (codeOpt : BitVec 32) (p : ℕ) (d : Door) : Door :=
  let d₁ := d.ringProxy mode p
  if cpuProxyUpdatePi codeOpt then { d₁ with sqWqePi := max d₁.sqWqePi p } else d₁

/-- A submission by way of `b`. -/
def submitBy (mode : SharingMode) (qpnDs codeOpt : BitVec 32) (p : ℕ) (d : Door) : Backend → Door
  | .db => d.submitDb qpnDs codeOpt p
  | .noDbr => d.submitDbNoDbr qpnDs codeOpt p
  | .proxy => d.submitProxy mode codeOpt p

/-- `doca_gpu_dev_verbs_submit`. -/
def submit (mode : SharingMode) (nicHandler qpNicHandler : NicHandler) (qpnDs codeOpt : BitVec 32)
    (p : ℕ) (d : Door) : Door :=
  d.submitBy mode qpnDs codeOpt p (submitBackend nicHandler qpNicHandler)

/-- The first loop of `doca_gpu_dev_verbs_submit_db_multi_qps` on one QP. -/
def multiFirst (qpnDs : BitVec 32) (p : ℕ) (d : Door) : Door :=
  let d₁ := d.lock.exec qpnDs (.db p) .atomicMax
  if d.won (.db p) then d₁.exec qpnDs (.db p) .ringFirst else d₁

/-- The second loop of `doca_gpu_dev_verbs_submit_db_multi_qps` on one QP; `old` is
`old_prod_indices[i]`. -/
def multiSecond (qpnDs : BitVec 32) (p old : ℕ) (d : Door) : Door :=
  let d₁ := if old < p then
      (d.exec qpnDs (.db p) .updateDbr).exec qpnDs (.db p) .ringSecond
    else d
  d₁.exec qpnDs (.db p) .unlock

end Door

/-- The constants that submissions read from QPs. -/
structure QpEnv (Q : Type*) where
  qpnDs : Q → BitVec 32
  nicHandler : Q → NicHandler

section Multi

variable {Q : Type*} [DecidableEq Q] (env : QpEnv Q)

/-- `doca_gpu_dev_verbs_submit_db_multi_qps`. -/
def submitDbMultiQps (codeOpt : BitVec 32) (qps : List (Q × ℕ)) (doors : Q → Door) : Q → Door :=
  if skipDbRinging codeOpt then doors
  else
    let first := Loop.collect Prod.fst (fun e d => d.multiFirst (env.qpnDs e.1) e.2) Door.sqWqePi
      qps doors
    Loop.each (fun e => e.1.1) (fun e d => d.multiSecond (env.qpnDs e.1.1) e.1.2 e.2)
      (qps.zip first.2) first.1

/-- `doca_gpu_dev_verbs_submit_db_multi_qps_no_dbr`. -/
def submitDbMultiQpsNoDbr (codeOpt : BitVec 32) (qps : List (Q × ℕ)) (doors : Q → Door) :
    Q → Door :=
  if skipDbRinging codeOpt then doors
  else
    Loop.each Prod.fst
      (fun e d =>
        let d₁ := d.exec (env.qpnDs e.1) (.db e.2) .atomicMax
        if d.won (.db e.2) then d₁.ringDb (env.qpnDs e.1) e.2 else d₁)
      qps doors

/-- `doca_gpu_dev_verbs_submit_proxy_multi_qps`. -/
def submitProxyMultiQps (mode : SharingMode) (qps : List (Q × ℕ)) (doors : Q → Door) : Q → Door :=
  Loop.each Prod.fst (fun e d => d.ringProxy mode e.2) qps doors

/-- `doca_gpu_dev_verbs_submit_multi_qps`: the handler is that of `qps[0]`. -/
def submitMultiQps (mode : SharingMode) (nicHandler : NicHandler) (codeOpt : BitVec 32)
    (qps : List (Q × ℕ)) (doors : Q → Door) : Q → Door :=
  match qps with
  | [] => doors
  | e :: _ =>
    match submitMultiBackend nicHandler (env.nicHandler e.1) with
    | .db => submitDbMultiQps env codeOpt qps doors
    | .noDbr => submitDbMultiQpsNoDbr env codeOpt qps doors
    | .proxy => submitProxyMultiQps mode qps doors

/-- `doca_gpu_dev_verbs_submit` on each QP in turn. -/
def submitEach (mode : SharingMode) (nicHandler : NicHandler) (codeOpt : BitVec 32)
    (qps : List (Q × ℕ)) (doors : Q → Door) : Q → Door :=
  Loop.each Prod.fst
    (fun e d => d.submit mode nicHandler (env.nicHandler e.1) (env.qpnDs e.1) codeOpt e.2) qps doors

end Multi

namespace Door

variable {mode : SharingMode} {qpnDs codeOpt : BitVec 32} {p : ℕ} {d : Door}

/-- The two loops do to a QP what `submit_db` does. -/
theorem multiSecond_multiFirst (h : skipDbRinging codeOpt = false) :
    (d.multiFirst qpnDs p).multiSecond qpnDs p d.sqWqePi = d.submitDb qpnDs codeOpt p := by
  rw [submitDb, h, multiSecond, multiFirst]
  by_cases hw : d.sqWqePi < p <;> simp [won, SubmitCall.prodIndex, hw]

/-- **The whole call is a run of its steps.** -/
theorem run_submitDb {A : Type*} [DecidableEq A] {s : SubmitSys A} {a : A}
    (hc : s.call a = some (.db p, none)) (hl : s.door.sqLock = false)
    (hs : skipDbRinging codeOpt = false) :
    ReflTransGen (SubmitSys.Step qpnDs) s
      { s with
        door := s.door.submitDb qpnDs codeOpt p
        call := Function.update s.call a none } := by
  -- a stage after others, which have moved the words to `d`
  have hstage : ∀ (d : Door) (st : Stage),
      SubmitSys.Step qpnDs
        { s with door := d, call := Function.update s.call a (some (.db p, some st)) }
        { s with
          door := d.exec qpnDs (.db p) st
          call := Function.update s.call a
            ((st.next (d.won (.db p))).map fun st' => (.db p, some st')) } := fun d st => by
    have h := @SubmitSys.Step.exec A _ qpnDs
      { s with door := d, call := Function.update s.call a (some (.db p, some st)) } a (.db p) st
      (Function.update_self ..)
    rwa [Function.update_idem] at h
  have hacq := @SubmitSys.Step.acquire A _ qpnDs s a _ hc hl
  have hmax := hstage s.door.lock .atomicMax
  have hlock : s.door.lock.won (.db p) = s.door.won (.db p) := rfl
  rw [submitDb, hs, if_neg (by simp)]
  cases hw : s.door.won (.db p) with
  | false =>
    rw [hlock, hw] at hmax
    exact (ReflTransGen.single hacq).tail hmax |>.tail (hstage _ .unlock)
  | true =>
    rw [hlock, hw] at hmax
    exact (ReflTransGen.single hacq).tail hmax |>.tail (hstage _ .ringFirst)
      |>.tail (hstage _ .updateDbr) |>.tail (hstage _ .ringSecond) |>.tail (hstage _ .unlock)

/-- What `submit_db` leaves in the words. -/
theorem words_submitDb : (d.submitDb qpnDs codeOpt p).words =
    if skipDbRinging codeOpt ∨ p ≤ d.sqWqePi then d.words
    else (p, prepareDb qpnDs p, prepareDbr p) := by
  unfold submitDb
  cases hs : skipDbRinging codeOpt with
  | true => simp
  | false =>
    by_cases hw : d.sqWqePi < p
    · simp [won, SubmitCall.prodIndex, hw, lock, exec, ringFirst, ringDb, updateDbr, words, hw.le]
    · simp [won, SubmitCall.prodIndex, hw, lock, exec, words, not_lt.1 hw]

/-- What `submit_db_no_dbr` leaves in the words. -/
theorem words_submitDbNoDbr : (d.submitDbNoDbr qpnDs codeOpt p).words =
    if skipDbRinging codeOpt ∨ p ≤ d.sqWqePi then d.words
    else (p, prepareDb qpnDs p, d.sqDbrec) := by
  unfold submitDbNoDbr
  cases hs : skipDbRinging codeOpt with
  | true => simp
  | false =>
    by_cases hw : d.sqWqePi < p
    · simp [won, SubmitCall.prodIndex, hw, exec, ringDb, words, hw.le]
    · simp [won, SubmitCall.prodIndex, hw, exec, words, not_lt.1 hw]

/-- What `submit_proxy` leaves in the words. -/
theorem words_submitProxy : (d.submitProxy mode codeOpt p).words =
    (if cpuProxyUpdatePi codeOpt then max d.sqWqePi p else d.sqWqePi,
      proxyWord mode p d.sqDb, d.sqDbrec) := by
  unfold submitProxy
  cases cpuProxyUpdatePi codeOpt <;> rfl

/-- An entry of an array submission: the proxy does not see `code_opt`. -/
def multiBy (mode : SharingMode) (qpnDs codeOpt : BitVec 32) (p : ℕ) (d : Door) : Backend → Door
  | .db => d.submitDb qpnDs codeOpt p
  | .noDbr => d.submitDbNoDbr qpnDs codeOpt p
  | .proxy => d.ringProxy mode p

end Door

section Multi

variable {Q : Type*} [DecidableEq Q] {env : QpEnv Q} {mode : SharingMode}
  {nicHandler h : NicHandler} {codeOpt : BitVec 32} {qps : List (Q × ℕ)} {doors : Q → Door}

theorem submitDbMultiQps_apply (hnd : (qps.map Prod.fst).Nodup) {e : Q × ℕ} (he : e ∈ qps) :
    submitDbMultiQps env codeOpt qps doors e.1 =
      (doors e.1).submitDb (env.qpnDs e.1) codeOpt e.2 := by
  cases hs : skipDbRinging codeOpt with
  | true => simp [submitDbMultiQps, Door.submitDb, hs]
  | false =>
    have hzip : qps.zip (qps.map fun e => (doors e.1).sqWqePi) =
        qps.map fun e => (e, (doors e.1).sqWqePi) := by
      simpa using List.zip_map' (l := qps) (f := id) (g := fun e => (doors e.1).sqWqePi)
    have hnd' : ((qps.map fun e => (e, (doors e.1).sqWqePi)).map fun e => e.1.1).Nodup := by
      rwa [List.map_map]
    have hloop := Loop.each_apply (f := fun e d => d.multiSecond (env.qpnDs e.1.1) e.1.2 e.2)
      (s := Loop.each Prod.fst (fun e d => d.multiFirst (env.qpnDs e.1) e.2) qps doors) hnd'
      (List.mem_map_of_mem he)
    rw [← Door.multiSecond_multiFirst hs, submitDbMultiQps, hs, if_neg (by simp),
      Loop.collect_fst, Loop.collect_snd hnd, hzip, hloop, Loop.each_apply hnd he]

theorem submitDbMultiQpsNoDbr_apply (hnd : (qps.map Prod.fst).Nodup) {e : Q × ℕ} (he : e ∈ qps) :
    submitDbMultiQpsNoDbr env codeOpt qps doors e.1 =
      (doors e.1).submitDbNoDbr (env.qpnDs e.1) codeOpt e.2 := by
  rw [submitDbMultiQpsNoDbr, Door.submitDbNoDbr]
  split
  · rfl
  · exact Loop.each_apply hnd he

/-- **An array submission on each of its QPs**, for the handler of the first one. -/
theorem submitMultiQps_apply (hnd : (qps.map Prod.fst).Nodup)
    (hh : ∀ e, qps.head? = some e → env.nicHandler e.1 = h) {e : Q × ℕ} (he : e ∈ qps) :
    submitMultiQps env mode nicHandler codeOpt qps doors e.1 =
      (doors e.1).multiBy mode (env.qpnDs e.1) codeOpt e.2 (submitMultiBackend nicHandler h) := by
  cases qps with
  | nil => cases he
  | cons a qps =>
    rw [submitMultiQps, hh a rfl]
    cases submitMultiBackend nicHandler h with
    | db => exact submitDbMultiQps_apply hnd he
    | noDbr => exact submitDbMultiQpsNoDbr_apply hnd he
    | proxy => exact Loop.each_apply hnd he

/-- An array submission works on its QPs only. -/
theorem submitMultiQps_of_notMem {q : Q} (hq : q ∉ qps.map Prod.fst) :
    submitMultiQps env mode nicHandler codeOpt qps doors q = doors q := by
  cases qps with
  | nil => rfl
  | cons a qps =>
    rw [submitMultiQps]
    cases submitMultiBackend nicHandler (env.nicHandler a.1) with
    | db =>
      simp only [submitDbMultiQps]
      split
      · rfl
      · rw [Loop.each_of_notMem, Loop.collect_fst, Loop.each_of_notMem hq]
        intro hmem
        obtain ⟨e, he, rfl⟩ := List.mem_map.1 hmem
        exact hq (List.mem_map_of_mem (List.of_mem_zip he).1)
    | noDbr =>
      simp only [submitDbMultiQpsNoDbr]
      split
      · rfl
      · exact Loop.each_of_notMem hq
    | proxy => exact Loop.each_of_notMem hq

/-- What submission through the proxy and submission without a doorbell record have in common on
one QP; `updatePi` says whether the proxy submission raises `sq_wqe_pi`. -/
def Coincide (mode : SharingMode) (qpnDs codeOpt : BitVec 32) (p : ℕ) (d : Door) (updatePi : Bool) :
    Prop :=
  if skipDbRinging codeOpt then
    Door.proxyWord mode p d.sqDb = d.sqDb ∧ (updatePi → p ≤ d.sqWqePi)
  else
    (updatePi ∨ p ≤ d.sqWqePi) ∧ Door.proxyWord mode p d.sqDb =
      if d.sqWqePi < p then prepareDb qpnDs p else d.sqDb

/-- When a submission by the first way and an array submission by the second do the same to a QP: if
both ring the proxy, `sq_wqe_pi` is not to be raised; no proxy and a proxy rarely coincide. -/
def SameSubmit (mode : SharingMode) (qpnDs codeOpt : BitVec 32) (p : ℕ) (d : Door) :
    Backend → Backend → Prop
  | .proxy, .proxy => cpuProxyUpdatePi codeOpt → p ≤ d.sqWqePi
  | .noDbr, .proxy => Coincide mode qpnDs codeOpt p d false
  | .proxy, .noDbr => Coincide mode qpnDs codeOpt p d (cpuProxyUpdatePi codeOpt)
  | _, _ => True

/-- The two dispatches differ in one pair of ways only. -/
theorem backend_cases (nicHandler h : NicHandler) :
    submitMultiBackend nicHandler h = submitBackend nicHandler h ∨
      submitBackend nicHandler h = .noDbr ∧ submitMultiBackend nicHandler h = .proxy ∨
      submitBackend nicHandler h = .proxy ∧ submitMultiBackend nicHandler h = .noDbr := by
  cases nicHandler <;> cases h <;> decide

/-- The two dispatches agree unless exactly one of template argument and handler is `NO_DBR`. -/
theorem submitMultiBackend_eq_iff (nicHandler h : NicHandler) :
    submitMultiBackend nicHandler h = submitBackend nicHandler h ↔
      nicHandler = .auto ∨ nicHandler = .gpuSmDb ∨
        (nicHandler = .gpuSmNoDbr ↔ h = .gpuSmNoDbr) := by
  cases nicHandler <;> cases h <;> decide

/-- The proxy's words and those of a submission without a record. -/
theorem words_noDbr_eq_iff {mode : SharingMode} {qpnDs codeOpt : BitVec 32} {p : ℕ} {d : Door}
    {u : Bool} :
    (d.submitDbNoDbr qpnDs codeOpt p).words =
        (if u then max d.sqWqePi p else d.sqWqePi, Door.proxyWord mode p d.sqDb, d.sqDbrec) ↔
      Coincide mode qpnDs codeOpt p d u := by
  rw [Door.words_submitDbNoDbr, Coincide]
  rcases lt_or_ge d.sqWqePi p with hw | hw
  · have hw' : ¬ p ≤ d.sqWqePi := not_le.2 hw
    cases skipDbRinging codeOpt <;> cases u <;>
      simp [Door.words, hw, hw', hw.le, hw.ne, hw.ne', eq_comm (a := Door.proxyWord mode p d.sqDb)]
  · have hw' : ¬ d.sqWqePi < p := not_lt.2 hw
    cases skipDbRinging codeOpt <;> cases u <;>
      simp [Door.words, hw, hw', eq_comm (a := Door.proxyWord mode p d.sqDb)]

theorem words_multiBy_iff {qpnDs : BitVec 32} {p : ℕ} {d : Door} :
    (d.multiBy mode qpnDs codeOpt p (submitMultiBackend nicHandler h)).words =
        (d.submitBy mode qpnDs codeOpt p (submitBackend nicHandler h)).words ↔
      SameSubmit mode qpnDs codeOpt p d (submitBackend nicHandler h)
        (submitMultiBackend nicHandler h) := by
  obtain heq | ⟨hs, hm⟩ | ⟨hs, hm⟩ := backend_cases nicHandler h
  · rw [heq]
    cases submitBackend nicHandler h with
    | db | noDbr => exact iff_of_true rfl trivial
    | proxy =>
      rw [Door.multiBy, Door.submitBy, Door.words_submitProxy, SameSubmit]
      cases cpuProxyUpdatePi codeOpt <;> simp [Door.words, Door.ringProxy]
  · rw [hs, hm, Door.multiBy, Door.submitBy, SameSubmit, ← words_noDbr_eq_iff, eq_comm]
    rfl
  · rw [hs, hm, Door.multiBy, Door.submitBy, SameSubmit, ← words_noDbr_eq_iff,
      Door.words_submitProxy]

/-- **An array submission is the submissions one by one**, on different QPs of one handler, exactly
if the two dispatches do the same to each QP. -/
theorem submitMultiQps_iff (hnd : (qps.map Prod.fst).Nodup)
    (hh : ∀ e ∈ qps, env.nicHandler e.1 = h) :
    (∀ q, (submitMultiQps env mode nicHandler codeOpt qps doors q).words =
        (submitEach env mode nicHandler codeOpt qps doors q).words) ↔
      ∀ e ∈ qps, SameSubmit mode (env.qpnDs e.1) codeOpt e.2 (doors e.1)
        (submitBackend nicHandler h) (submitMultiBackend nicHandler h) := by
  have heach : ∀ e ∈ qps, submitEach env mode nicHandler codeOpt qps doors e.1 =
      (doors e.1).submitBy mode (env.qpnDs e.1) codeOpt e.2 (submitBackend nicHandler h) :=
    fun e he => by rw [submitEach, Loop.each_apply hnd he, Door.submit, hh e he]
  have hhead : ∀ e, qps.head? = some e → env.nicHandler e.1 = h :=
    fun e he => hh e (List.mem_of_head? he)
  constructor
  · intro hall e he
    have heq := hall e.1
    rwa [submitMultiQps_apply hnd hhead he, heach e he, words_multiBy_iff] at heq
  · intro hall q
    by_cases hq : q ∈ qps.map Prod.fst
    · obtain ⟨e, he, rfl⟩ := List.mem_map.1 hq
      rw [submitMultiQps_apply hnd hhead he, heach e he, words_multiBy_iff]
      exact hall e he
    · rw [submitMultiQps_of_notMem hq, submitEach, Loop.each_of_notMem hq]

end Multi

/-- Two QPs served by the CPU proxy. -/
def proxyEnv : QpEnv Bool := ⟨fun _ => 0#32, fun _ => .cpuProxy⟩

/-- With `CPU_PROXY_UPDATE_PI` the array submission forgets to raise `sq_wqe_pi`. -/
theorem submitMultiQps_forgets_pi :
    let qps := [(true, 1), (false, 1)]
    let doors : Bool → Door := fun _ => ⟨false, 0, 0#64, 0#32, []⟩
    (submitMultiQps proxyEnv .gpu .auto 8#32 qps doors true).words = (0, 1#64, 0#32) ∧
      (submitEach proxyEnv .gpu .auto 8#32 qps doors true).words = (1, 1#64, 0#32) := by
  decide

theorem two_proxied_submitMultiQps :
    let qps := [(true, 1), (false, 1)]
    let doors : Bool → Door := fun _ => ⟨false, 0, 0#64, 0#32, []⟩
    ∀ q, (submitMultiQps proxyEnv .gpu .auto 0#32 qps doors q).words =
      (submitEach proxyEnv .gpu .auto 0#32 qps doors q).words :=
  (submitMultiQps_iff (h := .cpuProxy) (by decide) fun _ _ => rfl).2 fun _ _ h => by cases h

end Gpunetio
