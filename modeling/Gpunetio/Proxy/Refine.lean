import Gpunetio.Proxy.Model
import Gpunetio.Door.Submit

/-!
# The proxy refines direct submission

In CPU-proxy mode the threads of the device only raise the word `cpu_db` points to. Each progress
call that finds it changed is one `submit_db` of a single agent: the agent takes the lock and raises
`sq_wqe_pi` when the call has compared, and its other stages are the stores of the call.

* `ProxySys.Step`: any number of threads that raise `cpu_db`, and the proxy;
* `Stage.todo`, `ProxySys.Rel`: the stores left at a stage, and the simulation relation;
* `ProxySys.Rel.step`: every step of the proxy is a run of direct submission;
* **`ProxySys.refines`**: the writes, their bits, their order, and what a call alone leaves.
-/

namespace Gpunetio

open Transition Relation

/-- The write as direct submission records it. -/
def ProxyWrite.event : ProxyWrite → DoorEvent
  | db p _ => .db p
  | dbr p _ => .dbr p

theorem doorbell_event (w : ProxyWrite) : w.event.doorbell = w.doorbell := by cases w <;> rfl

theorem record_event (w : ProxyWrite) : w.event.record = w.record := by cases w <;> rfl

/-- What the proxy has still to store when direct submission is at a stage. -/
def Stage.todo : Stage → List ProxyOp
  | atomicMax | ringFirst => [.ringDb, .storeDbrec, .ringDb, .setLast]
  | updateDbr => [.storeDbrec, .ringDb, .setLast]
  | ringSecond => [.ringDb, .setLast]
  | unlock => [.setLast]

/-- One QP in CPU-proxy mode: the memory, and the progress call under way. -/
structure ProxySys where
  mem : ProxyMem
  call : Option ProxyCall

namespace ProxySys

/-- The QP as `doca_gpu_verbs_export_qp` leaves it. -/
structure Init (s : ProxySys) : Prop where
  cpuDb : s.mem.cpuDb = 0
  last : s.mem.sqWqePiLast = 0
  sqDbrec : s.mem.sqDbrec = 0
  trace : s.mem.trace = []
  call : s.call = none

/-- **One step**: a thread raises `cpu_db`, fewer than `2 ^ 32` WQEs ahead of the last index rung,
or the proxy moves. -/
inductive Step (qpnDs : BitVec 32) (ops : List ProxyOp) : ProxySys → ProxySys → Prop
  | ringProxy {s} (p : ℕ) (h : p < s.mem.rung + 2 ^ 32) :
      Step qpnDs ops s { s with mem := { s.mem with cpuDb := max s.mem.cpuDb p } }
  | proxy {s} :
      Step qpnDs ops s
        ⟨(s.mem.proxyStep qpnDs ops s.call).1, (s.mem.proxyStep qpnDs ops s.call).2⟩

/-- Direct submission is between two calls, and the proxy remembers its last index. -/
structure Between (m : ProxyMem) (t : SubmitSys Unit) : Prop where
  call : t.call () = none
  last : m.sqWqePiLast = t.door.sqWqePi % 2 ^ 32

/-- Where direct submission is, by the progress call under way. -/
def Phase (m : ProxyMem) (t : SubmitSys Unit) : Option ProxyCall → Prop
  | none => Between m t
  | some (.loaded v) => Between m t ∧ t.door.sqWqePi ≤ v ∧ v ≤ m.cpuDb
  | some (.storing v todo) => t.door.sqWqePi = v ∧ 0 < v ∧
      (todo = [] ∧ Between m t ∨
        ∃ st, st ≠ .atomicMax ∧ todo = st.todo ∧ t.call () = some (.db v, some st))

/-- The simulation relation. -/
structure Rel (s : ProxySys) (t : SubmitSys Unit) : Prop where
  sqDb : s.mem.sqDb = t.door.sqDb
  sqDbrec : s.mem.sqDbrec = t.door.sqDbrec
  trace : t.door.trace.filter (· ≠ .unlock) = s.mem.trace.map ProxyWrite.event
  le : t.door.sqWqePi ≤ s.mem.cpuDb
  lt : s.mem.cpuDb < s.mem.rung + 2 ^ 32
  phase : Phase s.mem t s.call

variable {qpnDs : BitVec 32} {ops : List ProxyOp} {s s' : ProxySys} {t : SubmitSys Unit}

theorem filterMap_trace {f : DoorEvent → Option ℕ} {g : ProxyWrite → Option ℕ} {m : ProxyMem}
    {d : Door} (hf : f .unlock = none) (hfg : ∀ w, f (ProxyWrite.event w) = g w)
    (h : d.trace.filter (· ≠ .unlock) = m.trace.map ProxyWrite.event) :
    d.trace.filterMap f = m.trace.filterMap g := by
  have hg : (fun w => f (ProxyWrite.event w)) = g := funext hfg
  have hfilter : (d.trace.filter (· ≠ .unlock)).filterMap f = d.trace.filterMap f := by
    rw [List.filterMap_filter]
    refine List.filterMap_congr fun e _ => ?_
    cases e <;> simp [hf]
  rw [← hfilter, h, List.filterMap_map]
  exact congrArg (m.trace.filterMap ·) hg

theorem Rel.doorbells (h : Rel s t) : s.mem.doorbells = t.door.doorbells :=
  (filterMap_trace rfl doorbell_event h.trace).symm

theorem Rel.records (h : Rel s t) : s.mem.records = t.door.records :=
  (filterMap_trace rfl record_event h.trace).symm

/-- The last index rung is never above the one submitted. -/
theorem Rel.rung_le (h : Rel s t) (ht : t.Inv qpnDs) : s.mem.rung ≤ t.door.sqWqePi := by
  rw [ProxyMem.rung, h.doorbells]
  cases hd : t.door.doorbells with
  | nil => exact Nat.zero_le _
  | cons p l => exact ht.ordered.doorbells_le p (by rw [hd]; exact List.mem_cons_self)

/-- Between two calls all words name the last index rung. -/
theorem settled_of_between (ht : t.Inv qpnDs) (hb : t.call () = none) :
    t.door.sqLock = false ∧ t.door.Settled qpnDs := by
  obtain ⟨hl, hset, -⟩ := ht.greatest fun _ => hb
  exact ⟨hl, hset⟩

theorem Rel.rung_eq (h : Rel s t) (ht : t.Inv qpnDs) (hb : t.call () = none) :
    s.mem.rung = t.door.sqWqePi := by
  rw [ProxyMem.rung, h.doorbells]
  exact (settled_of_between ht hb).2.last

/-- Two indices less than `2 ^ 32` apart are told apart by their low 32 bits. -/
theorem behind_iff {m : ProxyMem} {pi v : ℕ} (hl : m.sqWqePiLast = pi % 2 ^ 32) (hle : pi ≤ v)
    (hlt : v < pi + 2 ^ 32) : m.behind v = true ↔ pi < v := by
  simp only [ProxyMem.behind, tmpDb, BitVec.toNat_ofNat, hl, decide_eq_true_eq]
  omega

variable (qpnDs) in
/-- The agent executes a stage. -/
theorem exec_run {c : SubmitCall} {st : Stage} (hc : t.call () = some (c, some st)) :
    ∃ t', SubmitSys.Step qpnDs t t' ∧ t'.door = t.door.exec qpnDs c st ∧
      t'.call () = (st.next (t.door.won c)).map fun st' => (c, some st') :=
  ⟨_, .exec () hc, rfl, by simp⟩

/-- The agent begins, takes the lock and raises `sq_wqe_pi`. -/
theorem begin_run {v : ℕ} (ht : t.Inv qpnDs) (hb : t.call () = none) (hlt : t.door.sqWqePi < v) :
    ∃ t', ReflTransGen (SubmitSys.Step qpnDs) t t' ∧ t'.call () = some (.db v, some .ringFirst) ∧
      t'.door = { t.door with sqLock := true, sqWqePi := v } := by
  have hl := (settled_of_between ht hb).1
  obtain ⟨t₁, hcall, hc₁, hd₁⟩ : ∃ t₁, SubmitSys.Step qpnDs t t₁ ∧
      t₁.call () = some (.db v, none) ∧ t₁.door = t.door :=
    ⟨_, .call (fun _ => some (.db v)) fun _ _ _ => hb, rfl, rfl⟩
  obtain ⟨t₂, hacq, hc₂, hd₂⟩ : ∃ t₂, SubmitSys.Step qpnDs t₁ t₂ ∧
      t₂.call () = some (.db v, some .atomicMax) ∧ t₂.door = { t.door with sqLock := true } :=
    ⟨_, .acquire () hc₁ (by rw [hd₁, hl]), by simp, by rw [hd₁]⟩
  obtain ⟨t₃, hmax, hd₃, hc₃⟩ := exec_run qpnDs hc₂
  have hwon : t₂.door.won (.db v) = true := by
    rw [hd₂]
    exact decide_eq_true hlt
  refine ⟨t₃, ((ReflTransGen.single hcall).tail hacq).tail hmax, ?_, ?_⟩
  · rw [hc₃, hwon]
    rfl
  · rw [hd₃, hd₂, Door.exec, SubmitCall.prodIndex, max_eq_right hlt.le]

/-- A thread raises `cpu_db`: direct submission does nothing. -/
theorem Rel.ringProxy (h : Rel s t) {p : ℕ} (hp : p < s.mem.rung + 2 ^ 32) :
    Rel { s with mem := { s.mem with cpuDb := max s.mem.cpuDb p } } t where
  sqDb := h.sqDb
  sqDbrec := h.sqDbrec
  trace := h.trace
  le := h.le.trans (le_max_left _ _)
  lt := max_lt h.lt hp
  phase := by
    have hph := h.phase
    cases hc : s.call with
    | none =>
      rw [hc] at hph
      exact ⟨hph.call, hph.last⟩
    | some c =>
      rw [hc] at hph
      cases c with
      | loaded v => exact ⟨⟨hph.1.call, hph.1.last⟩, hph.2.1, hph.2.2.trans (le_max_left _ _)⟩
      | storing v todo => exact ⟨hph.1, hph.2.1,
          hph.2.2.imp_left fun hb => ⟨hb.1, hb.2.call, hb.2.last⟩⟩

/-- The call compares: if the index differs from the last one, direct submission begins. -/
theorem Rel.compare (h : Rel s t) (ht : t.Inv qpnDs) {v : ℕ} (hc : s.call = some (.loaded v)) :
    ∃ t', ReflTransGen (SubmitSys.Step qpnDs) t t' ∧
      Rel ⟨s.mem, if s.mem.behind v then some (.storing v Stage.ringFirst.todo) else none⟩ t' := by
  have hph := h.phase
  rw [hc] at hph
  obtain ⟨hb, hle, hv⟩ := hph
  have hlt : v < t.door.sqWqePi + 2 ^ 32 := by
    have h₁ := h.lt
    have h₂ := h.rung_eq ht hb.call
    omega
  have hbehind := behind_iff hb.last hle hlt
  by_cases hd : s.mem.behind v
  · obtain ⟨t', hrun, hc', hd'⟩ := begin_run ht hb.call (hbehind.1 hd)
    rw [if_pos hd]
    refine ⟨t', hrun, ?_⟩
    exact
      { sqDb := by rw [hd']; exact h.sqDb
        sqDbrec := by rw [hd']; exact h.sqDbrec
        trace := by rw [hd']; exact h.trace
        le := by rw [hd']; exact hv
        lt := h.lt
        phase := ⟨by rw [hd'], (Nat.zero_le _).trans_lt (hbehind.1 hd),
          .inr ⟨.ringFirst, by decide, rfl, hc'⟩⟩ }
  · rw [if_neg hd]
    exact ⟨t, .refl, h.sqDb, h.sqDbrec, h.trace, h.le, h.lt, hb⟩

/-- A store of the call is a stage of direct submission. -/
theorem Rel.store (h : Rel s t) (ht : t.Inv qpnDs) {v : ℕ} {op : ProxyOp} {todo : List ProxyOp}
    (hc : s.call = some (.storing v (op :: todo))) :
    ∃ t', ReflTransGen (SubmitSys.Step qpnDs) t t' ∧
      Rel ⟨s.mem.exec qpnDs v op, some (.storing v todo)⟩ t' := by
  have hph := h.phase
  rw [hc] at hph
  obtain ⟨rfl, hpos, ⟨hnil, -⟩ | ⟨st, hst, htodo, hcall⟩⟩ := hph
  · cases hnil
  have hrung := h.rung_le ht
  have hle := h.le
  have hlt := h.lt
  obtain ⟨t', hstep, hdoor, hcall'⟩ := exec_run qpnDs hcall
  refine ⟨t', .single hstep, ?_⟩
  -- a doorbell is rung at two of the stages
  have hring : ∀ st', t'.door = t.door.ringDb qpnDs t.door.sqWqePi → st' ≠ .atomicMax →
      t'.call () = some (.db t.door.sqWqePi, some st') →
      Rel ⟨s.mem.exec qpnDs t.door.sqWqePi .ringDb,
        some (.storing t.door.sqWqePi st'.todo)⟩ t' := by
    intro st' hd hst' hc'
    exact
      { sqDb := by rw [hd]; exact proxyDb_eq qpnDs _
        sqDbrec := by rw [hd]; exact h.sqDbrec
        trace := by rw [hd]; exact congrArg (DoorEvent.db t.door.sqWqePi :: ·) h.trace
        le := by rw [hd]; exact hle
        lt := by
          show s.mem.cpuDb < t.door.sqWqePi + 2 ^ 32
          omega
        phase := ⟨by rw [hd]; rfl, hpos, .inr ⟨st', hst', rfl, hc'⟩⟩ }
  cases st with
  | atomicMax => exact (hst rfl).elim
  | ringFirst =>
    cases htodo
    exact hring .updateDbr hdoor (by decide) hcall'
  | updateDbr =>
    cases htodo
    exact
      { sqDb := by rw [hdoor]; exact h.sqDb
        sqDbrec := by rw [hdoor]; exact proxyDbr_eq _
        trace := by rw [hdoor]; exact congrArg (DoorEvent.dbr t.door.sqWqePi :: ·) h.trace
        le := by rw [hdoor]; exact hle
        lt := hlt
        phase := ⟨by rw [hdoor]; rfl, hpos, .inr ⟨.ringSecond, by decide, rfl, hcall'⟩⟩ }
  | ringSecond =>
    cases htodo
    exact hring .unlock hdoor (by decide) hcall'
  | unlock =>
    cases htodo
    exact
      { sqDb := by rw [hdoor]; exact h.sqDb
        sqDbrec := by rw [hdoor]; exact h.sqDbrec
        trace := by rw [hdoor]; exact h.trace
        le := by rw [hdoor]; exact hle
        lt := hlt
        phase := ⟨by rw [hdoor]; rfl, hpos, .inl ⟨rfl, hcall', by rw [hdoor]; rfl⟩⟩ }

/-- **Every step of the proxy is a run of direct submission.** -/
theorem Rel.step (h : Rel s t) (ht : t.Inv qpnDs)
    (hs : Step qpnDs (fullAssisted .validDbr) s s') :
    ∃ t', ReflTransGen (SubmitSys.Step qpnDs) t t' ∧ Rel s' t' := by
  cases hs with
  | ringProxy p hp => exact ⟨t, .refl, h.ringProxy hp⟩
  | proxy =>
    have hph := h.phase
    cases hc : s.call with
    | none =>
      rw [hc] at hph
      exact ⟨t, .refl, h.sqDb, h.sqDbrec, h.trace, h.le, h.lt, hph, h.le, le_rfl⟩
    | some c =>
      cases c with
      | loaded v => exact h.compare ht hc
      | storing v todo =>
        cases todo with
        | cons op todo => exact h.store ht hc
        | nil =>
          rw [hc] at hph
          obtain ⟨-, -, ⟨-, hb⟩ | ⟨st, -, htodo, -⟩⟩ := hph
          · exact ⟨t, .refl, h.sqDb, h.sqDbrec, h.trace, h.le, h.lt, hb⟩
          · cases st <;> cases htodo

/-- What the proxy has written: the words of device code, for indices that never go back. -/
structure Written (qpnDs : BitVec 32) (m : ProxyMem) : Prop where
  direct : ∀ w ∈ m.trace, w.Direct qpnDs
  pos : ∀ w ∈ m.trace, 0 < w.index
  ordered : (m.trace.map ProxyWrite.index).Pairwise (· ≥ ·)

/-- No index written is above the one submitted. -/
theorem Rel.index_le (h : Rel s t) (ht : t.Inv qpnDs) {w : ProxyWrite} (hw : w ∈ s.mem.trace) :
    w.index ≤ t.door.sqWqePi := by
  cases w with
  | db p x =>
    refine ht.ordered.doorbells_le p ?_
    rw [← h.doorbells]
    exact List.mem_filterMap.2 ⟨_, hw, rfl⟩
  | dbr p x =>
    refine ht.ordered.records_le p ?_
    rw [← h.records]
    exact List.mem_filterMap.2 ⟨_, hw, rfl⟩

theorem Written.push {m m' : ProxyMem} {w : ProxyWrite} (h : Written qpnDs m)
    (ht : m'.trace = w :: m.trace) (hd : w.Direct qpnDs) (hpos : 0 < w.index)
    (hle : ∀ w' ∈ m.trace, w'.index ≤ w.index) : Written qpnDs m' where
  direct := by rw [ht]; exact List.forall_mem_cons.2 ⟨hd, h.direct⟩
  pos := by rw [ht]; exact List.forall_mem_cons.2 ⟨hpos, h.pos⟩
  ordered := by
    rw [ht, List.map_cons]
    refine List.pairwise_cons.2 ⟨fun p hp => ?_, h.ordered⟩
    obtain ⟨w', hw', rfl⟩ := List.mem_map.1 hp
    exact hle w' hw'

theorem Written.step (h : Written qpnDs s.mem) (hr : Rel s t) (ht : t.Inv qpnDs)
    (hs : Step qpnDs ops s s') : Written qpnDs s'.mem := by
  cases hs with
  | ringProxy p hp => exact ⟨h.direct, h.pos, h.ordered⟩
  | proxy =>
    have hph := hr.phase
    rcases hc : s.call with _ | (v | ⟨v, _ | ⟨op, todo⟩⟩)
    · exact h
    · exact h
    · exact h
    · rw [hc] at hph
      obtain ⟨rfl, hpos, -⟩ := hph
      have hle : ∀ w ∈ s.mem.trace, w.index ≤ t.door.sqWqePi := fun w => hr.index_le ht
      cases op with
      | ringDb => exact h.push rfl (proxyDb_eq qpnDs _) hpos hle
      | storeDbrec => exact h.push rfl (proxyDbr_eq _) hpos hle
      | setLast => exact ⟨h.direct, h.pos, h.ordered⟩

/-- A run of the proxy beside one of direct submission. -/
theorem reachable_rel (h : Reachable Init (Step qpnDs (fullAssisted .validDbr)) s) :
    (∃ t, Reachable SubmitSys.Init (SubmitSys.Step qpnDs) t ∧ Rel s t) ∧
      Written qpnDs s.mem := by
  refine Reachable.invariant (P := fun s => (∃ t, Reachable SubmitSys.Init
    (SubmitSys.Step qpnDs) t ∧ Rel s t) ∧ Written qpnDs s.mem) h (fun s hi => ⟨?_, ?_⟩)
    fun s s' hinv hs => ?_
  · refine ⟨⟨⟨false, 0, s.mem.sqDb, 0, []⟩, fun _ => none, ∅⟩,
      .start ⟨⟨rfl, rfl, rfl, rfl⟩, fun _ => rfl, rfl⟩, ?_⟩
    exact
      { sqDb := rfl
        sqDbrec := hi.sqDbrec
        trace := by rw [hi.trace]; rfl
        le := Nat.zero_le _
        lt := by rw [hi.cpuDb]; omega
        phase := by rw [hi.call]; exact ⟨rfl, hi.last⟩ }
  · constructor <;> simp [hi.trace]
  · obtain ⟨⟨t, ht, hrel⟩, hw⟩ := hinv
    have hti := SubmitSys.reachable_inv ht
    obtain ⟨t', hrun, hrel'⟩ := hrel.step hti hs
    exact ⟨⟨t', ht.run hrun, hrel'⟩, hw.step hrel hti hs⟩

/-- A run of the proxy alone is a run of the system. -/
theorem alone_run {m m' : ProxyMem} {c c' : Option ProxyCall}
    (h : ReflTransGen (ProxyMem.Alone qpnDs ops) (m, c) (m', c')) :
    ReflTransGen (Step qpnDs ops) ⟨m, c⟩ ⟨m', c'⟩ := by
  refine h.lift (fun x => (⟨x.1, x.2⟩ : ProxySys)) fun x y hxy => ?_
  rw [show y = _ from hxy]
  exact Step.proxy (s := ⟨x.1, x.2⟩)

/-- After a call of its own the proxy remembers `cpu_db`. -/
theorem progress_last (qpnDs : BitVec 32) (m : ProxyMem) (nicHandler : NicHandler) :
    (m.progress qpnDs .validDbr nicHandler).1.sqWqePiLast = (tmpDb m.cpuDb).toNat := by
  rw [ProxyMem.progress_fst, ProxyMem.progressWith]
  split
  · rfl
  · exact (of_not_not fun hne => ‹¬ _› (decide_eq_true (Ne.symm hne)))

/-- A call that finds `cpu_db` where it left it does nothing. -/
theorem progress_of_last {m : ProxyMem} (nicHandler : NicHandler)
    (h : m.sqWqePiLast = (tmpDb m.cpuDb).toNat) :
    m.progress qpnDs .validDbr nicHandler = (m, false) := by
  have hb : m.behind m.cpuDb = false := decide_eq_false (not_not.2 h.symm)
  simp [ProxyMem.progress, ProxyMem.progressWith, hb]

/-- **The proxy refines direct submission.** In any run of threads and proxy, the writes of the
proxy are those of a run of `submit_db`; each has the bits `submit_db` writes for an index
published before and the QP's number; the indices never go back. A progress call with no thread
beside it leaves the doorbell and the record at `cpu_db`, and a further one writes nothing and
reports nothing. -/
theorem refines (qp : QpConst) (nicHandler : NicHandler)
    (h : Reachable Init (Step qp.sqNumShift8Be (progressOps .validDbr nicHandler)) s) :
    (∃ t : SubmitSys Unit, Reachable SubmitSys.Init (SubmitSys.Step (qp.qpnDs 0#32)) t ∧
      s.mem.sqDb = t.door.sqDb ∧ s.mem.sqDbrec = t.door.sqDbrec ∧
      t.door.trace.filter (· ≠ .unlock) = s.mem.trace.map ProxyWrite.event) ∧
    (∀ w ∈ s.mem.trace, w.Direct (qp.qpnDs 0#32) ∧ w.index ≤ s.mem.cpuDb) ∧
    (s.mem.trace.map ProxyWrite.index).Pairwise (· ≥ ·) ∧
    (s.call = none → ∀ m' progressed,
      s.mem.progress qp.sqNumShift8Be .validDbr nicHandler = (m', progressed) →
      m'.cpuDb = s.mem.cpuDb ∧ m'.sqDbrec = prepareDbr s.mem.cpuDb ∧
        (s.mem.cpuDb = 0 ∧ m'.trace = [] ∨ m'.sqDb = prepareDb (qp.qpnDs 0#32) s.mem.cpuDb) ∧
        m'.progress qp.sqNumShift8Be .validDbr nicHandler = (m', false)) := by
  have hops : progressOps .validDbr nicHandler = fullAssisted .validDbr := rfl
  rw [sqNumShift8Be_eq] at h ⊢
  rw [hops] at h
  obtain ⟨⟨t, ht, hrel⟩, hw⟩ := reachable_rel h
  have hpub : ∀ w ∈ s.mem.trace, w.index ≤ s.mem.cpuDb := fun w hmem =>
    (hrel.index_le (SubmitSys.reachable_inv ht) hmem).trans hrel.le
  refine ⟨⟨t, ht, hrel.sqDb, hrel.sqDbrec, hrel.trace⟩, fun w hmem => ⟨hw.direct w hmem,
    hpub w hmem⟩, hw.ordered, ?_⟩
  intro hidle m' progressed hm'
  -- the call is a run, so what is known of reachable states holds after it
  have hrun := ProxyMem.progress_run (qp.qpnDs 0#32) s.mem .validDbr nicHandler
  have hcpu : m'.cpuDb = s.mem.cpuDb := by
    have : (s.mem.progressWith (qp.qpnDs 0#32) (progressOps .validDbr nicHandler)).cpuDb =
      s.mem.cpuDb := ProxyMem.progressWith_cpuDb
    rwa [← ProxyMem.progress_fst, hm'] at this
  have hlast : m'.sqWqePiLast = (tmpDb m'.cpuDb).toNat := by
    have := progress_last (qp.qpnDs 0#32) s.mem nicHandler
    rwa [hm', ← hcpu] at this
  rw [hm', hops] at hrun
  obtain ⟨mem, call⟩ := s
  obtain rfl : call = none := hidle
  obtain ⟨⟨t', ht', hrel'⟩, hw'⟩ := reachable_rel (h.run (alone_run hrun))
  have hinv := SubmitSys.reachable_inv ht'
  have hb : Between m' t' := hrel'.phase
  have hset := (settled_of_between hinv hb.call).2
  have hpi : t'.door.sqWqePi = m'.cpuDb := by
    have h₁ := hrel'.le
    have h₂ := hrel'.lt
    have h₃ := hrel'.rung_eq hinv hb.call
    have h₄ : (tmpDb m'.cpuDb).toNat = t'.door.sqWqePi % 2 ^ 32 := hlast.symm.trans hb.last
    simp only [tmpDb, BitVec.toNat_ofNat] at h₁ h₂ h₃ h₄
    omega
  refine ⟨hcpu, ?_, ?_, progress_of_last nicHandler hlast⟩
  · rw [← hcpu, ← hpi, ← hset.sqDbrec]
    exact hrel'.sqDbrec
  · rw [← hcpu, ← hpi]
    refine hset.sqDb.imp (fun h0 => ⟨h0, ?_⟩) fun hdb => hrel'.sqDb.trans hdb
    refine List.eq_nil_iff_forall_not_mem.2 fun w hmem => ?_
    have h₁ := hrel'.index_le hinv hmem
    have h₂ := hw'.pos w hmem
    omega

/-- A QP on which nothing has been rung. -/
def fresh : ProxySys := ⟨⟨0, 0, 0, 0, []⟩, none⟩

theorem init_fresh : Init fresh := ⟨rfl, rfl, rfl, rfl, rfl⟩

theorem refines_three :
    ∃ s, Reachable Init
        (Step (QpConst.sqNumShift8Be ⟨0x12, 0⟩) (progressOps .validDbr .cpuProxy)) s ∧
      s.mem.cpuDb = 3 ∧ s.call = none ∧
      (s.mem.progress (QpConst.sqNumShift8Be ⟨0x12, 0⟩) .validDbr .cpuProxy).1.sqDbrec =
        prepareDbr 3 := by
  have hs : Step (QpConst.sqNumShift8Be ⟨0x12, 0⟩) (progressOps .validDbr .cpuProxy) fresh _ :=
    .ringProxy 3 (by decide)
  have h := (Reachable.start init_fresh).next hs
  exact ⟨_, h, rfl, rfl, ((refines ⟨0x12, 0⟩ .cpuProxy h).2.2.2 rfl _ _ rfl).2.1⟩

end ProxySys

end Gpunetio
