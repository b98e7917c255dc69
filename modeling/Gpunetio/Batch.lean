import Gpunetio.OneSided

/-!
# Batching submissions

With `SKIP_DB_RINGING` an operation is to leave its WQEs ready without telling the NIC or the CPU
proxy, and one submission later covers all of them.

* `Door.words_submitBy`, `Door.submitBy_absorb`: a submission covers an earlier one of a smaller
  index;
* `DevOp.SkipOk`: what skipping promises;
* `DevOp.Quiet`: the flag is passed on to a submission that looks at it;
* **`DevOp.skipOk_iff`**: an operation keeps the promise exactly if it is quiet.
-/

namespace Gpunetio

/-- `code_opt` without `SKIP_DB_RINGING`. -/
def clearSkip (codeOpt : BitVec 32) : BitVec 32 := codeOpt &&& ~~~(1#32 <<< 2)

@[simp] theorem skipDbRinging_clearSkip (codeOpt : BitVec 32) :
    skipDbRinging (clearSkip codeOpt) = false := by
  have h : codeOpt &&& ~~~(1#32 <<< 2) &&& 1#32 <<< 2 = 0#32 := by
    rw [BitVec.and_assoc]; simp
  rw [skipDbRinging, clearSkip, h]
  rfl

@[simp] theorem cpuProxyUpdatePi_clearSkip (codeOpt : BitVec 32) :
    cpuProxyUpdatePi (clearSkip codeOpt) = cpuProxyUpdatePi codeOpt := by
  have h : codeOpt &&& ~~~(1#32 <<< 2) &&& 1#32 <<< 3 = codeOpt &&& 1#32 <<< 3 := by
    rw [BitVec.and_assoc]; rfl
  rw [cpuProxyUpdatePi, cpuProxyUpdatePi, clearSkip, h]

namespace Door

variable {mode : SharingMode} {qpnDs o f : BitVec 32} {p p' : ℕ} {d d' : Door} {b : Backend}

/-- The GPU rings, with a doorbell record or without, unless it is told to skip or the words have
come as far as the index already. -/
theorem words_submitBy_of_ne_proxy (hb : b ≠ .proxy) :
    (d.submitBy mode qpnDs o p b).words =
      if skipDbRinging o ∨ p ≤ d.sqWqePi then d.words
      else (p, prepareDb qpnDs p, if b = .db then prepareDbr p else d.sqDbrec) := by
  cases b with
  | db => exact words_submitDb
  | noDbr => exact words_submitDbNoDbr
  | proxy => exact (hb rfl).elim

/-- What a submission leaves in the words depends on the words only. -/
theorem words_submitBy_congr (h : d.words = d'.words) :
    (d.submitBy mode qpnDs o p b).words = (d'.submitBy mode qpnDs o p b).words := by
  simp only [words, Prod.mk.injEq] at h
  obtain ⟨hpi, hdb, hdbr⟩ := h
  by_cases hb : b = .proxy
  · subst hb
    rw [submitBy, submitBy, words_submitProxy, words_submitProxy, hpi, hdb, hdbr]
  · rw [words_submitBy_of_ne_proxy hb, words_submitBy_of_ne_proxy hb, words, words, hpi, hdb, hdbr]

theorem proxyWord_absorb {word : BitVec 64} (h : p ≤ p') :
    proxyWord mode p' (proxyWord mode p word) = proxyWord mode p' word := by
  cases mode with
  | exclusive => rfl
  | cta | gpu =>
    simp only [proxyWord]
    apply BitVec.eq_of_toNat_eq
    simp only [BitVec.toNat_ofNat]
    have := word.isLt
    omega

/-- **A later submission of an index at least as great covers an earlier one.** -/
theorem submitBy_absorb (h : p ≤ p') (ho : skipDbRinging o = false)
    (hf : cpuProxyUpdatePi f → cpuProxyUpdatePi o) :
    ((d.submitBy mode qpnDs f p b).submitBy mode qpnDs o p' b).words =
      (d.submitBy mode qpnDs o p' b).words := by
  by_cases hb : b = .proxy
  · subst hb
    have hd := @words_submitProxy mode f p d
    rw [words, Prod.mk.injEq, Prod.mk.injEq] at hd
    rw [submitBy, submitBy, submitBy, words_submitProxy, words_submitProxy, hd.1, hd.2.1, hd.2.2,
      proxyWord_absorb h]
    cases hu : cpuProxyUpdatePi o with
    | true =>
      cases cpuProxyUpdatePi f
      · rfl
      · simp only [if_true]
        rw [max_assoc, max_eq_right h]
    | false => simp [Bool.eq_false_iff.2 (mt hf (by simp [hu]))]
  · have hd : (d.submitBy mode qpnDs f p b).words = _ := words_submitBy_of_ne_proxy hb
    split at hd
    · exact words_submitBy_congr hd
    · rename_i hraise
      have hpi : (d.submitBy mode qpnDs f p b).sqWqePi = p := congrArg Prod.fst hd
      have hrec : (d.submitBy mode qpnDs f p b).sqDbrec = _ := congrArg (·.2.2) hd
      have hlt : ¬ (false = true ∨ p' ≤ d.sqWqePi) := by
        rw [not_or, not_le] at hraise ⊢
        exact ⟨Bool.false_ne_true, hraise.2.trans_le h⟩
      rw [words_submitBy_of_ne_proxy (o := o) (d := d) hb,
        words_submitBy_of_ne_proxy (d := d.submitBy mode qpnDs f p b) hb, ho, if_neg hlt, hd, hpi,
        hrec]
      obtain rfl | hp := h.eq_or_lt
      · rw [if_pos (.inr le_rfl)]
      · rw [if_neg (by simpa using hp)]
        split <;> rfl

/-- **A submission with `f` changes nothing**: it looks at the flag and finds it set, or the words
have come as far as the index already. -/
def Silent (mode : SharingMode) (f : BitVec 32) (p : ℕ) (d : Door) : Backend → Prop
  | .db | .noDbr => skipDbRinging f ∨ p ≤ d.sqWqePi
  | .proxy => proxyWord mode p d.sqDb = d.sqDb ∧ (cpuProxyUpdatePi f → p ≤ d.sqWqePi)

theorem words_submitBy_eq_iff :
    (d.submitBy mode qpnDs f p b).words = d.words ↔ d.Silent mode f p b := by
  have hraise : ∀ x : BitVec 64 × BitVec 32, (p, x) = d.words → p = d.sqWqePi :=
    fun x h => congrArg Prod.fst h
  by_cases hb : b = .proxy
  · subst hb
    rw [submitBy, words_submitProxy, Silent, words, Prod.mk.injEq, Prod.mk.injEq]
    cases cpuProxyUpdatePi f <;> simp [and_comm]
  · have hsilent : d.Silent mode f p b ↔ skipDbRinging f ∨ p ≤ d.sqWqePi := by
      cases b with
      | db | noDbr => rfl
      | proxy => exact (hb rfl).elim
    rw [words_submitBy_of_ne_proxy hb, hsilent]
    by_cases hs : skipDbRinging f ∨ p ≤ d.sqWqePi
    · simp only [hs, if_true]
    · exact iff_of_false (fun h => hs (.inr (hraise _ (by rwa [if_neg hs] at h)).le)) hs

/-- An entry of an array submission is a submission, which through the proxy has no `code_opt`. -/
theorem multiBy_eq : d.multiBy mode qpnDs o p b =
    d.submitBy mode qpnDs (if b = .proxy then 0#32 else o) p b := by
  cases b with
  | db | noDbr => rfl
  | proxy => rw [if_pos rfl]; rfl

/-- `f` and `f'` are what a call submits with, with the flag and without, and `l` what a later
submission does. -/
structure BatchOpts (f f' l : BitVec 32) : Prop where
  unskipped : skipDbRinging f' = false
  later : skipDbRinging l = false
  updatePi : cpuProxyUpdatePi f = cpuProxyUpdatePi f'
  laterUpdatePi : cpuProxyUpdatePi f → cpuProxyUpdatePi l

variable {f' l : BitVec 32}

/-- A call with the flag changes nothing and a later submission makes up for it exactly if it is
silent, also where only the later submission would raise `sq_wqe_pi`. -/
theorem skip_iff (qpnDs : BitVec 32) (h : BatchOpts f f' l) :
    ((d.submitBy mode qpnDs f p b).words = d.words ∧
        ((d.submitBy mode qpnDs f p b).submitBy mode qpnDs l p b).words =
          (d.submitBy mode qpnDs f' p b).words) ↔
      d.Silent mode (if b = .proxy then l else f) p b := by
  by_cases hb : b = .proxy
  · subst hb
    rw [if_pos rfl, words_submitBy_eq_iff]
    constructor
    · rintro ⟨hs, hlater⟩
      rw [words_submitBy_congr (words_submitBy_eq_iff.2 hs), submitBy, submitBy, words_submitProxy,
        words_submitProxy, ← h.updatePi, Prod.mk.injEq] at hlater
      refine ⟨hs.1, fun hl => ?_⟩
      rw [if_pos hl] at hlater
      by_cases hf : cpuProxyUpdatePi f
      · exact hs.2 hf
      · rw [if_neg hf] at hlater
        exact max_eq_left_iff.1 hlater.1
    · intro hs
      have hf : d.Silent mode f p .proxy := ⟨hs.1, fun hf => hs.2 (h.laterUpdatePi hf)⟩
      have hf' : d.Silent mode f' p .proxy := ⟨hs.1, fun hf' => hf.2 (h.updatePi ▸ hf')⟩
      refine ⟨hf, ?_⟩
      rw [words_submitBy_congr (words_submitBy_eq_iff.2 hf), words_submitBy_eq_iff.2 hs,
        words_submitBy_eq_iff.2 hf']
  · rw [if_neg hb, words_submitBy_eq_iff, and_iff_left_iff_imp]
    intro hs
    rw [words_submitBy_congr (words_submitBy_eq_iff.2 hs)]
    rw [words_submitBy_of_ne_proxy hb, words_submitBy_of_ne_proxy hb, h.later, h.unskipped]

/-- After a later submission of any greater index it makes no difference that a call skipped. -/
theorem skip_absorb (h : BatchOpts f f' l) (hp : p ≤ p')
    (hs : (d.submitBy mode qpnDs f p b).words = d.words) :
    ((d.submitBy mode qpnDs f p b).submitBy mode qpnDs l p' b).words =
      ((d.submitBy mode qpnDs f' p b).submitBy mode qpnDs l p' b).words := by
  rw [words_submitBy_congr hs,
    submitBy_absorb hp h.later fun hf' => h.laterUpdatePi (h.updatePi ▸ hf')]

end Door

namespace OneSidedOp

/-- The operation passes `code_opt` on to its submission. -/
def forwards : OneSidedOp → Bool
  | getWarp _ _ _ mcst => mcst.isNone
  | _ => true

/-- What an operation does to a QP does not depend on `code_opt`, but for its submission. -/
theorem plan_eq (op : OneSidedOp) (cudaArch : ℕ) (o : BitVec 32) :
    op.plan cudaArch o =
      (op.plan cudaArch 0#32).map fun plan =>
        { plan with codeOpt := if op.forwards then o else 0#32 } := by
  cases op with
  | getWarp raddr laddr size mcst =>
    cases mcst <;> by_cases h : 800 ≤ cudaArch <;> simp [plan, forwards, h, Gpunetio.getWarp]
  | putWarp raddr laddr size =>
    by_cases h : 800 ≤ cudaArch <;> simp [plan, forwards, h, Gpunetio.putWarp]
  | _ => rfl

end OneSidedOp

namespace DevOp

variable {Q : Type*} [DecidableEq Q] {env : DevEnv Q} {mode : SharingMode}
  {nicHandler : NicHandler} {codeOpt o o' : BitVec 32} {op : DevOp Q} {w : World Q}
  {mem : Q → QpMem} {doors doors' : Q → Door}

theorem post_eq (op : DevOp Q) : op.post env o mem = op.post env 0#32 mem := by
  cases op with
  | oneSided q op =>
    rw [post, post, op.plan_eq]
    cases op.plan env.cudaArch 0#32 <;> rfl
  | counter q c op args ne => rfl

theorem final_eq (op : DevOp Q) : op.final env o mem = op.final env 0#32 mem := by
  cases op with
  | oneSided q op =>
    rw [final, final, op.plan_eq]
    cases op.plan env.cudaArch 0#32 <;> rfl
  | counter q c op args ne => rfl

variable (env) in
/-- The QPs the operation posts to. -/
def keys (op : DevOp Q) : List Q :=
  match op with
  | oneSided q op => if (op.plan env.cudaArch 0#32).isSome then [q] else []
  | counter q c _ _ _ => [q, c]

variable (env nicHandler) in
/-- The way the operation submits. -/
def backend (op : DevOp Q) : Backend :=
  match op with
  | oneSided q _ => submitBackend nicHandler (env.nicHandler q)
  | counter q _ _ _ _ => submitMultiBackend nicHandler (env.nicHandler q)

/-- What its submit function passes on of `code_opt`: the array submission through the proxy,
nothing. -/
def passed (op : DevOp Q) (b : Backend) (codeOpt : BitVec 32) : BitVec 32 :=
  match op with
  | oneSided _ _ => codeOpt
  | counter _ _ _ _ _ => if b = .proxy then 0#32 else codeOpt

omit [DecidableEq Q] in
theorem nodup_keys (op : DevOp Q) : (op.keys env).Nodup := by
  cases op with
  | oneSided q op => rw [keys]; split <;> simp
  | counter q c op args ne => simp [keys, ne]

theorem map_final (op : DevOp Q) : (op.final env o mem).map Prod.fst = op.keys env := by
  rw [final_eq]
  cases op with
  | oneSided q op => rw [final, keys]; cases op.plan env.cudaArch 0#32 <;> rfl
  | counter q c op args ne => rfl

/-- **The submit function of an operation on each of its QPs.** -/
theorem submitAll_apply {es : List (Q × ℕ)} (hes : es.map Prod.fst = op.keys env) {e : Q × ℕ}
    (he : e ∈ es) :
    op.submitAll env mode nicHandler o es doors e.1 =
      (doors e.1).submitBy mode ((env.qp e.1).qpnDs 0#32)
        (op.passed (op.backend env nicHandler) o) e.2 (op.backend env nicHandler) := by
  have hnd : (es.map Prod.fst).Nodup := hes ▸ op.nodup_keys
  have hkey : e.1 ∈ op.keys env := hes ▸ List.mem_map_of_mem he
  cases op with
  | oneSided q op =>
    obtain rfl : e.1 = q := by
      rw [keys] at hkey
      split at hkey <;> simp at hkey
      exact hkey
    exact Loop.each_apply hnd he
  | counter q c op args ne =>
    have hhead : ∀ a, es.head? = some a → env.submitEnv.nicHandler a.1 = env.nicHandler q := by
      intro a ha
      have := congrArg List.head? hes
      rw [List.head?_map, ha, keys] at this
      exact congrArg env.nicHandler (Option.some.inj this)
    exact (submitMultiQps_apply hnd hhead he).trans Door.multiBy_eq

theorem submitAll_of_notMem {es : List (Q × ℕ)} {q : Q} (hq : q ∉ es.map Prod.fst) :
    op.submitAll env mode nicHandler o es doors q = doors q := by
  cases op with
  | oneSided q' op => exact Loop.each_of_notMem hq
  | counter q' c op args ne => exact submitMultiQps_of_notMem hq

/-- The flag is passed on to the submit function. -/
def forwards (op : DevOp Q) : Bool :=
  match op with
  | oneSided _ op => op.forwards
  | counter _ _ _ _ _ => true

/-- `es'` names the QPs of `es` with indices at least as great. -/
def Later (es es' : List (Q × ℕ)) : Prop :=
  List.Forall₂ (fun e e' => e.1 = e'.1 ∧ e.2 ≤ e'.2) es es'

omit [DecidableEq Q] in
theorem later_keys {es es' : List (Q × ℕ)} (h : Later es es') :
    es.map Prod.fst = es'.map Prod.fst := by
  induction h with
  | nil => rfl
  | cons h _ ih => rw [List.map_cons, List.map_cons, h.1, ih]

omit [DecidableEq Q] in
theorem later_mem {es es' : List (Q × ℕ)} (h : Later es es') {e : Q × ℕ} (he : e ∈ es) :
    ∃ e' ∈ es', e.1 = e'.1 ∧ e.2 ≤ e'.2 := by
  induction h with
  | nil => cases he
  | @cons a b _ _ h _ ih =>
    obtain rfl | he := List.mem_cons.1 he
    · exact ⟨b, List.mem_cons_self, h⟩
    · obtain ⟨e', he', h'⟩ := ih he
      exact ⟨e', List.mem_cons_of_mem _ he', h'⟩

variable (env mode nicHandler codeOpt) in
/-- **What `SKIP_DB_RINGING` promises**: the words stay as they are; the WQEs are written and marked
ready as ever; a submission of the last index afterwards leaves the words as if the operation had
not skipped; and a submission of any later index covers the operation whether it skipped or not. -/
structure SkipOk (op : DevOp Q) (w : World Q) : Prop where
  words : ∀ q, ((op.run env mode nicHandler codeOpt w).door q).words = (w.door q).words
  mem : (op.run env mode nicHandler codeOpt w).mem =
    (op.run env mode nicHandler (clearSkip codeOpt) w).mem
  later : ∀ q,
    (op.submitAll env mode nicHandler (clearSkip codeOpt) (op.final env codeOpt w.mem)
        (op.run env mode nicHandler codeOpt w).door q).words =
      ((op.run env mode nicHandler (clearSkip codeOpt) w).door q).words
  batch : ∀ es, Later (op.final env codeOpt w.mem) es → ∀ q,
      (op.submitAll env mode nicHandler (clearSkip codeOpt) es
          (op.run env mode nicHandler codeOpt w).door q).words =
        (op.submitAll env mode nicHandler (clearSkip codeOpt) es
          (op.run env mode nicHandler (clearSkip codeOpt) w).door q).words

variable (env mode nicHandler codeOpt) in
/-- **The flag reaches a submission that looks at it**: not the proxy, which never does, and with
the operation passing it on; or the words have come as far as the index submitted already. -/
def Quiet (op : DevOp Q) (w : World Q) : Prop :=
  ∀ e ∈ op.final env codeOpt w.mem,
    match op.backend env nicHandler with
    | .db | .noDbr => op.forwards ∨ e.2 ≤ (w.door e.1).sqWqePi
    | .proxy => Door.proxyWord mode e.2 (w.door e.1).sqDb = (w.door e.1).sqDb ∧
        (cpuProxyUpdatePi (op.passed .proxy codeOpt) → e.2 ≤ (w.door e.1).sqWqePi)

omit [DecidableEq Q] in
/-- An operation that posts submits with its `code_opt` or, if it does not pass it on, with none. -/
theorem submitOpt_eq (op : DevOp Q) (h : op.keys env ≠ []) :
    op.submitOpt env o = if op.forwards then o else 0#32 := by
  cases op with
  | oneSided q op =>
    rw [submitOpt, op.plan_eq, forwards]
    rw [keys] at h
    cases hp : op.plan env.cudaArch 0#32 with
    | none => simp [hp] at h
    | some plan => rfl
  | counter q c op args ne => rfl

omit [DecidableEq Q] in
theorem batchOpts (op : DevOp Q) (b : Backend) (h : op.keys env ≠ []) :
    Door.BatchOpts (op.passed b (op.submitOpt env codeOpt))
      (op.passed b (op.submitOpt env (clearSkip codeOpt))) (op.passed b (clearSkip codeOpt)) := by
  rw [op.submitOpt_eq h, op.submitOpt_eq h]
  have h₀ : skipDbRinging 0#32 = false := rfl
  have h₁ : cpuProxyUpdatePi 0#32 = false := rfl
  cases op with
  | oneSided q op => cases hf : forwards (.oneSided q op) <;> constructor <;> simp [passed, h₀, h₁]
  | counter q c op args ne =>
    by_cases hb : b = .proxy <;> constructor <;> simp [passed, forwards, hb, h₀, h₁]

omit [DecidableEq Q] in
/-- With the flag set, an entry is silent exactly if the operation is quiet there. -/
theorem silent_iff (op : DevOp Q) {p : ℕ} {d : Door} {b : Backend} (h : op.keys env ≠ [])
    (hskip : skipDbRinging codeOpt = true) :
    d.Silent mode (if b = .proxy then op.passed b (clearSkip codeOpt)
        else op.passed b (op.submitOpt env codeOpt)) p b ↔
      match b with
      | .db | .noDbr => op.forwards ∨ p ≤ d.sqWqePi
      | .proxy => Door.proxyWord mode p d.sqDb = d.sqDb ∧
          (cpuProxyUpdatePi (op.passed .proxy codeOpt) → p ≤ d.sqWqePi) := by
  have h₀ : skipDbRinging 0#32 = false := rfl
  rw [op.submitOpt_eq h]
  cases b with
  | proxy => cases op <;> simp [Door.Silent, passed]
  | db | noDbr =>
    cases op with
    | oneSided q op =>
      cases hf : forwards (.oneSided q op) <;> simp [Door.Silent, passed, hskip, h₀]
    | counter q c op args ne => simp [Door.Silent, passed, forwards, hskip]

theorem run_apply (op : DevOp Q) {e : Q × ℕ} (he : e ∈ op.final env 0#32 w.mem) :
    (op.run env mode nicHandler o w).door e.1 =
      (w.door e.1).submitBy mode ((env.qp e.1).qpnDs 0#32)
        (op.passed (op.backend env nicHandler) (op.submitOpt env o)) e.2
        (op.backend env nicHandler) :=
  submitAll_apply op.map_final (by rwa [op.final_eq])

/-- A QP the operation does not post to is left alone. -/
theorem run_of_notMem (op : DevOp Q) {q : Q} (hq : q ∉ op.keys env) :
    (op.run env mode nicHandler o w).door q = w.door q :=
  submitAll_of_notMem (by rwa [op.map_final])

/-- **`SKIP_DB_RINGING` keeps its promise** exactly if the operation is quiet. -/
theorem skipOk_iff (op : DevOp Q) (w : World Q) (hskip : skipDbRinging codeOpt = true) :
    op.SkipOk env mode nicHandler codeOpt w ↔ op.Quiet env mode nicHandler codeOpt w := by
  have hmap := @map_final Q _ env 0#32 w.mem op
  have hne : ∀ e ∈ op.final env 0#32 w.mem, op.keys env ≠ [] := fun e he =>
    List.ne_nil_of_mem (hmap ▸ List.mem_map_of_mem he)
  have hkey : ∀ q ∈ op.keys env, ∃ e ∈ op.final env 0#32 w.mem, e.1 = q := fun q hq =>
    List.mem_map.1 (hmap ▸ hq)
  rw [Quiet, op.final_eq]
  constructor
  · intro h e he
    have hwords := h.words e.1
    have hlater := h.later e.1
    rw [op.final_eq, submitAll_apply hmap he, op.run_apply he, op.run_apply he] at hlater
    rw [op.run_apply he] at hwords
    exact (op.silent_iff (hne e he) hskip).1
      ((Door.skip_iff _ (op.batchOpts _ (hne e he))).1 ⟨hwords, hlater⟩)
  · intro h
    have hent := fun e he => (Door.skip_iff ((env.qp e.1).qpnDs 0#32)
      (op.batchOpts _ (hne e he))).2 ((op.silent_iff (hne e he) hskip).2 (h e he))
    refine ⟨fun q => ?_, ?_, fun q => ?_, fun es hes q => ?_⟩
    · by_cases hq : q ∈ op.keys env
      · obtain ⟨e, he, rfl⟩ := hkey q hq
        rw [op.run_apply he]
        exact (hent e he).1
      · rw [op.run_of_notMem hq]
    · rw [run, run, op.post_eq, op.post_eq (o := clearSkip codeOpt)]
    · rw [op.final_eq]
      by_cases hq : q ∈ op.keys env
      · obtain ⟨e, he, rfl⟩ := hkey q hq
        rw [submitAll_apply hmap he, op.run_apply he, op.run_apply he]
        exact (hent e he).2
      · rw [submitAll_of_notMem (hmap ▸ hq), op.run_of_notMem hq, op.run_of_notMem hq]
    · rw [op.final_eq] at hes
      have hes' : es.map Prod.fst = op.keys env := hmap ▸ (later_keys hes).symm
      by_cases hq : q ∈ op.keys env
      · obtain ⟨e, he, rfl⟩ := hkey q hq
        obtain ⟨e', he', heq, hle⟩ := later_mem hes he
        rw [heq, submitAll_apply hes' he', submitAll_apply hes' he', ← heq, op.run_apply he,
          op.run_apply he]
        exact Door.skip_absorb (op.batchOpts _ (hne e he)) hle (hent e he).1
      · rw [submitAll_of_notMem (hes' ▸ hq), submitAll_of_notMem (hes' ▸ hq),
          op.run_of_notMem hq, op.run_of_notMem hq]

/-- One QP with a ring of 64 WQEs on a device of architecture 9.0. -/
def oneQp (h : NicHandler) : DevEnv Unit := ⟨fun _ => ⟨7#32, 9#32⟩, fun _ => h, fun _ => 64, 900⟩

/-- A QP as exported. -/
def newQp : World Unit := ⟨fun _ => ⟨0, 0, fun _ => none⟩, fun _ => ⟨false, 0, 0#64, 0#32, []⟩⟩

/-- With the flag set, a signal through the CPU proxy moves the proxy word, and a get of a warp with
a dump moves `sq_wqe_pi`. -/
theorem skip_ignored :
    ¬ (oneSided () (.signalThread ⟨0#64, 0#32⟩ ⟨0#64, 0#32⟩ 1#64)).SkipOk (oneQp .cpuProxy) .gpu
        .auto 4#32 newQp ∧
      ¬ (oneSided () (.getWarp (fun _ => ⟨0#64, 0#32⟩) (fun _ => ⟨0#64, 0#32⟩) (fun _ => 8#64)
          (some ⟨0#64, 0#32⟩))).SkipOk (oneQp .gpuSmDb) .gpu .auto 4#32 newQp := by
  refine ⟨fun h => ?_, fun h => ?_⟩
  · exact absurd (congrArg (·.2.1) (h.words ())) (by decide)
  · exact absurd (congrArg (·.1) (h.words ())) (by decide)

theorem signal_skips :
    (oneSided () (.signalThread ⟨0#64, 0#32⟩ ⟨0#64, 0#32⟩ 1#64)).SkipOk (oneQp .gpuSmDb) .gpu .auto
      4#32 newQp :=
  (skipOk_iff _ _ (by decide)).2 fun _ _ => .inl rfl

end DevOp

end Gpunetio
