import Gpunetio.Host.Parts

/-!
# Where a creation is balanced

* `Owes`: what has been acquired since a world is what a clean-up will give back, exactly under a
  condition; `createCq_owes`, `createQp_owes`: what the parts add to it;
* `HlBuilt`: a queue pair with all its parts; `HlBuilt.teardown`;
* `createAndExport_outcome`, `createSingle_outcome`, `createOnUar_outcome`: how a queue pair ends;
* `HlCalls.CqStage`, `HlCalls.QpStage`: the condition on the calls;
* **`createQpHl_balanced_iff`**, **`createQpGroupHl_balanced_iff`**.
-/

namespace Gpunetio.Lifecycle

open Gpunetio.Lifecycle.World
open HighLevel (QpInitAttrHl argsValid)

variable {w w' w'' : World} {l rs : List Res} {p q : Prop} {env : Env}

/-! ## What is owed -/

/-- Under `p` what has been acquired since `w` is what `rs` gives back; else something is spoiled,
or will be by `rs`. -/
structure Owes (w w' : World) (rs : List Res) (p : Prop) : Prop where
  later : w.Later w'
  grown : p → w.Grown w' rs ∧ w'.openFds = w.openFds
  goes : p → ∀ r ∈ rs, r.goes = true
  spoiled : ¬ p → w.Spoiled w' ∨ ∃ l, l ≠ [] ∧ w.Grown w' l ∧ .stray ∈ rs

/-- Something is spoiled, or left. -/
def Lost (w w' : World) : Prop := w.Spoiled w' ∨ ∃ r ∈ w'.held, r ∉ w.held

namespace Owes

theorem refl (w : World) : Owes w w [] True where
  later := .refl w
  grown _ := ⟨.refl w, rfl⟩
  goes _ := nofun
  spoiled h := absurd trivial h

theorem congr (h : Owes w w' rs p) (hpq : q ↔ p) : Owes w w' rs q where
  later := h.later
  grown hq := h.grown (hpq.1 hq)
  goes hq := h.goes (hpq.1 hq)
  spoiled hq := h.spoiled fun hp => hq (hpq.2 hp)

theorem perm (h : Owes w w' rs p) {rs' : List Res} (hperm : rs.Perm rs') : Owes w w' rs' p where
  later := h.later
  grown hp := ⟨(h.grown hp).1.perm hperm, (h.grown hp).2⟩
  goes hp r hr := h.goes hp r (hperm.mem_iff.2 hr)
  spoiled hp := by
    obtain hs | ⟨l, hl, hg, hstray⟩ := h.spoiled hp
    · exact Or.inl hs
    · exact Or.inr ⟨l, hl, hg, hperm.mem_iff.1 hstray⟩

/-- More is acquired, to be given back under `q`. -/
theorem append {n : ℕ} {rs' : List Res} (h : Owes w w' rs p) (hg : w'.Grown w'' l) (hl : l ≠ [])
    (hfd : w''.openFds = w'.openFds + n) (hperm : q → l.Perm rs') (hstray : ¬ q → .stray ∈ rs') :
    Owes w w'' (rs' ++ rs) (p ∧ q ∧ n = 0 ∧ ∀ r ∈ l, r.goes = true) where
  later := h.later.trans (hg.later (hfd ▸ Nat.le_add_right _ _))
  grown := by
    rintro ⟨hp, hq, rfl, -⟩
    exact ⟨((h.grown hp).1.append hg).perm ((hperm hq).append_right rs), hfd.trans (h.grown hp).2⟩
  goes := by
    rintro ⟨hp, hq, -, hgo⟩ r hr
    obtain hr | hr := List.mem_append.1 hr
    · exact hgo r ((hperm hq).mem_iff.2 hr)
    · exact h.goes hp r hr
  spoiled hnot := by
    have hlater := hg.later (hfd ▸ Nat.le_add_right _ _)
    by_cases hp : p
    · by_cases hq : q
      · by_cases hn : n = 0
        · have hstuck : w'.Spoiled w'' := hg.stuck fun hgo => hnot ⟨hp, hq, hn, hgo⟩
          exact Or.inl (hstuck.of_later h.later)
        · have hle := h.later.openFds
          exact Or.inl (Or.inr (Or.inl (by omega)))
      · refine Or.inr ⟨l ++ rs, by simp [hl], (h.grown hp).1.append hg, ?_⟩
        exact List.mem_append_left _ (hstray hq)
    · obtain hs | ⟨l', -, hg', hmem⟩ := h.spoiled hp
      · exact Or.inl (hlater.spoiled hs)
      · exact Or.inr ⟨l ++ l', by simp [hl], hg'.append hg, List.mem_append_right _ hmem⟩

theorem acquire (h : Owes w w' rs p) (kind : ResKind) (refs : List ℕ) (goes : Bool) :
    Owes w (w'.acquire kind refs goes) (w'.fresh kind refs goes :: rs) (p ∧ goes = true) := by
  have hg := (Grown.refl w').acquire kind refs goes
  exact (h.append (n := 0) (q := True) hg (by simp) rfl (fun _ => .refl _)
    (fun hnot => absurd trivial hnot)).congr (by simp [fresh])

/-- The struct of a creation. -/
theorem struct (w : World) : Owes w (w.acquire .host [] true) [w.fresh .host [] true] True :=
  ((refl w).acquire .host [] true).congr (by simp)

/-- A part fails. -/
theorem fail (h : Owes w w' rs p) (he : Ends w' w'' q) : Owes w w'' rs (p ∧ q) where
  later := h.later.trans he.later
  grown := by
    rintro ⟨hp, hq⟩
    have hret := he.returned hq
    exact ⟨(h.grown hp).1.append hret.grown, hret.openFds.trans (h.grown hp).2⟩
  goes hpq := h.goes hpq.1
  spoiled hnot := by
    by_cases hq : q
    · have hret := he.returned hq
      obtain hs | ⟨l, hl, hg, hmem⟩ := h.spoiled fun hp => hnot ⟨hp, hq⟩
      · exact Or.inl (he.later.spoiled hs)
      · exact Or.inr ⟨l, hl, hg.append hret.grown, hmem⟩
    · exact Or.inl ((he.spoiled hq).of_later h.later)

/-- It is given back. -/
theorem exit (h : Owes w w' rs p) {rs' : List Res} (hperm : rs.Perm rs') :
    Ends w (w'.releaseAll rs') p where
  later := h.later.trans (later_releaseAll rs')
  returned hp := by
    obtain ⟨hg, hfd⟩ := h.grown hp
    refine ⟨hg.release (by rwa [List.append_nil]) fun r hr => h.goes hp r (hperm.mem_iff.2 hr), ?_⟩
    exact openFds_releaseAll.trans hfd
  spoiled hp := by
    obtain hs | ⟨l, -, hg, hmem⟩ := h.spoiled hp
    · exact (later_releaseAll rs').spoiled hs
    · exact hg.spoils_stray (hperm.mem_iff.1 hmem)

/-- It is not. -/
theorem lost (h : Owes w w' rs p) (hrs : rs ≠ []) : Lost w w' := by
  have hleft : ∀ l, l ≠ [] → w.Grown w' l → Lost w w' := by
    intro l hl hg
    obtain ⟨r, hr⟩ := List.exists_mem_of_ne_nil l hl
    exact Or.inr ⟨r, (hg.held r).2 (Or.inl hr), hg.notMem hr⟩
  by_cases hp : p
  · exact hleft rs hrs (h.grown hp).1
  · obtain hs | ⟨l, hl, hg, -⟩ := h.spoiled hp
    · exact Or.inl hs
    · exact hleft l hl hg

end Owes

theorem not_returned_of_spoiled (hm : w.misuse = false) (h : w.Spoiled w') : ¬ w.Returned w' := by
  intro hret
  obtain h | h | ⟨r, hr, hnot⟩ := h
  · have hsame := hret.grown.misuse
    rw [hm, h] at hsame
    cases hsame
  · exact absurd hret.openFds h.ne'
  · have hmem := (hret.grown.held r).1 hr.1
    simp [hnot] at hmem

theorem Lost.not_returned (hm : w.misuse = false) (h : Lost w w') : ¬ w.Returned w' := by
  obtain h | ⟨r, hr, hnot⟩ := h
  · exact not_returned_of_spoiled hm h
  · intro hret
    have hmem := (hret.grown.held r).1 hr
    simp [hnot] at hmem

theorem Ends.returned_iff (hm : w.misuse = false) (h : Ends w w' p) : w.Returned w' ↔ p := by
  constructor
  · intro hret
    by_contra hp
    exact not_returned_of_spoiled hm (h.spoiled hp) hret
  · exact h.returned

/-! ## Completion queues -/

/-- What the teardown of a CQ gives back. -/
def CqOut.teardown (out : CqOut) : List Res :=
  match out.verbsCq with
  | none => []
  | some cq => cq :: out.gpuUmem.toList ++ out.umemDevPtr.toList.map memFree

/-- The calls of `create_cq` leave nothing behind, neither on its exits nor after it. -/
structure HlCalls.CqStage (c : HlCalls) (env : Env) : Prop where
  clean : c.cq.Clean env
  keyed : c.cq.allocated = true → env.Keyed
  destroy : c.cq.built env = true → c.cq.destroy = true

theorem CqCalls.registers_of_built {c : CqCalls} (hb : c.built env = true) :
    c.registers env = true := by
  simp only [CqCalls.built, CqCalls.creates, Bool.and_eq_true] at hb
  exact hb.1.1.1.1

theorem CqCalls.allocated_of_built {c : CqCalls} (hb : c.built env = true) :
    c.allocated = true := by
  have hreg := registers_of_built hb
  simp only [CqCalls.registers, Bool.and_eq_true] at hreg
  exact hreg.1.1

theorem cqStage_iff_built {c : HlCalls} (hb : c.cq.built env = true) :
    c.CqStage env ↔ env.Keyed ∧ (c.cq.umem.leaks (env.mreg false)).toNat = 0 ∧
      c.cq.destroy = true ∧ c.cq.umem.destroy = true ∧ c.cq.memFree = true := by
  have halloc := CqCalls.allocated_of_built hb
  have hreg := CqCalls.registers_of_built hb
  have hmakes : c.cq.umem.makes (env.mreg false) = true := by
    simp only [CqCalls.built, CqCalls.creates, Bool.and_eq_true] at hb
    exact hb.1.1.1.2
  rw [Bool.toNat_eq_zero]
  constructor
  · intro h
    exact ⟨h.keyed halloc, h.clean.closed hreg, h.destroy hb, h.clean.dereg hreg hmakes,
      h.clean.memFree halloc⟩
  · rintro ⟨hkeyed, hleaks, hdestroy, hdereg, hfree⟩
    have hok : c.cq.attr = true ∧ c.cq.alloc = .ok := by simpa [CqCalls.allocated] using halloc
    refine ⟨⟨fun _ h => ?_, fun _ => ?_, fun _ _ => hkeyed, fun _ => hleaks, fun _ => ?_,
      fun _ => hfree, fun _ _ => hdereg⟩, fun _ => hkeyed, fun _ => hdestroy⟩
    · rw [hok.2] at h
      cases h
    · simp [hok.2]
    · simp only [CqCalls.built, Bool.and_eq_true] at hb
      exact hb.2

theorem cqStage_iff_failed {c : HlCalls} (hb : c.cq.built env = false) :
    c.CqStage env ↔ c.cq.Clean env :=
  ⟨fun h => h.clean, fun h => ⟨h, fun halloc => h.keyed halloc hb, by simp [hb]⟩⟩

variable (env) in
/-- What a CQ owes. -/
theorem createCq_owes (h : Owes w w' rs p) (uar : Option Res) (c : HlCalls) :
    Owes w (createCq env uar c.cq w').world ((createCq env uar c.cq w').out.teardown ++ rs)
      (p ∧ c.CqStage env) := by
  cases hb : c.cq.built env with
  | true =>
    obtain ⟨cq, umem, block, w'', heq, hg, hfd, hparts, hgoes⟩ := createCq_built uar w' hb
    have hkey := memFree_devPtr_of_gpuMem env hparts.block.1
    rw [heq, cqStage_iff_built hb]
    refine (h.append (q := env.Keyed) hg (by simp) hfd (fun hk => ?_) fun hk => ?_).congr ?_
    · simp [CqOut.teardown, hkey, hk]
    · simp [CqOut.teardown, hkey, hk]
    · simp [hgoes.cq, hgoes.umem, hgoes.block]
  | false =>
    have hfail := createCq_failed uar w' hb
    rw [cqStage_iff_failed hb, CqOut.teardown, hfail.verbsCq]
    exact h.fail hfail.ends

/-! ## UARs -/

/-- `create_uar` finds a UAR. -/
def UarCalls.made (c : UarCalls) (nicHandler : NicHandler) : Bool :=
  if nicHandler ≠ .gpuSmBf then c.ncDedicated || c.nc else c.blueflame

/-- `create_uar` returns success. -/
def UarCalls.goesOn (c : UarCalls) (nicHandler : NicHandler) : Bool :=
  nicHandler ≠ .gpuSmBf || c.blueflame

theorem createUar_owes (h : Owes w w' rs p) (nicHandler : NicHandler) (c : UarCalls) :
    Owes w (createUar nicHandler c w').world ((createUar nicHandler c w').out.toList ++ rs)
      (p ∧ (c.made nicHandler = true → c.destroy = true)) := by
  have hnew := h.acquire .uar [] c.destroy
  unfold createUar UarCalls.made
  split_ifs with hbf hcall hblue
  · exact hnew.congr (by simp [hcall])
  · exact h.congr (by simp [hcall])
  · exact hnew.congr (by simp [hblue])
  · exact h.congr (by simp [hblue])

/-! ## Queue pairs -/

/-- What the teardown gives back of what `create_qp` made. -/
def QpOut.teardown (nicHandler : NicHandler) (ext : DbrModeExt) (out : QpOut) : List Res :=
  out.verbsQp.toList ++ out.gpuUmem.toList ++ out.umemDevPtr.toList.map memFree ++
    out.gpuUmemDbr.toList ++ out.umemDbrDevPtr.toList.map (tearDbr nicHandler ext)

theorem HlQp.teardown_eq (q : HlQp) :
    q.teardown = q.qpGverbs.toList.flatMap (unexportQp q.nicHandler) ++
      q.qp.teardown q.nicHandler q.sendDbrModeExt ++ q.externalUar.toList ++ q.cqSq.teardown := by
  have hcq : q.teardown = q.qpGverbs.toList.flatMap (unexportQp q.nicHandler) ++
      q.qp.verbsQp.toList ++ q.qp.gpuUmem.toList ++
      q.qp.umemDevPtr.toList.map memFree ++ q.qp.gpuUmemDbr.toList ++
      q.qp.umemDbrDevPtr.toList.map (tearDbr q.nicHandler q.sendDbrModeExt) ++
      q.externalUar.toList ++ q.cqSq.teardown := rfl
  rw [hcq, QpOut.teardown]
  simp only [List.append_assoc]

/-- The calls of `create_qp` leave nothing behind, neither on its exits nor after it. -/
structure QpCalls.Stage (c : QpCalls) (env : Env) (a : QpArgs) : Prop where
  clean : c.built env a = false → c.Clean env a
  keyed : c.built env a = true → env.Keyed
  closed : c.built env a = true → c.umem.leaks (env.mreg false) = false
  closedDbr : c.built env a = true →
    c.umemDbr.leaks (env.mreg ((c.handler a).any (dbrOnHost · a.sendDbrModeExt))) = false
  destroy : c.built env a = true → c.destroy = true
  dereg : c.built env a = true → c.umem.destroy = true
  memFree : c.built env a = true → c.memFree = true
  deregDbr : c.built env a = true → c.umemDbr.destroy = true
  dbrGoes : c.built env a = true → (c.handler a).any (c.dbrGoes a) = true

theorem QpCalls.stage_iff_built {c : QpCalls} {a : QpArgs} {nic : NicHandler}
    (hb : c.built env a = true) (hh : c.handler a = some nic) :
    c.Stage env a ↔ env.Keyed ∧ (c.umem.leaks (env.mreg false)).toNat +
        (c.umemDbr.leaks (mregDbr env a nic)).toNat = 0 ∧ c.destroy = true ∧
      c.umem.destroy = true ∧ c.memFree = true ∧ c.umemDbr.destroy = true ∧
      c.dbrGoes a nic = true := by
  rw [Nat.add_eq_zero_iff, Bool.toNat_eq_zero, Bool.toNat_eq_zero]
  constructor
  · intro hs
    have hclosed := hs.closedDbr hb
    have hdbr := hs.dbrGoes hb
    rw [hh] at hclosed hdbr
    exact ⟨hs.keyed hb, ⟨hs.closed hb, hclosed⟩, hs.destroy hb, hs.dereg hb, hs.memFree hb,
      hs.deregDbr hb, hdbr⟩
  · rintro ⟨hk, ⟨hl, hl'⟩, hdestroy, hdereg, hfree, hdereg', hdbr⟩
    refine ⟨fun hno => ?_, fun _ => hk, fun _ => hl, fun _ => ?_, fun _ => hdestroy,
      fun _ => hdereg, fun _ => hfree, fun _ => hdereg', fun _ => ?_⟩
    · rw [hb] at hno
      cases hno
    · rw [hh]
      exact hl'
    · rw [hh]
      exact hdbr

variable (env) in
/-- What a QP owes. -/
theorem createQp_owes (h : Owes w w' rs p) (a : QpArgs) (c : QpCalls) (nicHandler : NicHandler) :
    Owes w (createQp env a c w').world
      ((createQp env a c w').out.teardown ((createQp env a c w').out.nicHandler.getD nicHandler)
        a.sendDbrModeExt ++ rs) (p ∧ c.Stage env a) := by
  cases hb : c.built env a with
  | true =>
    obtain ⟨nic, qp, umem, block, umemDbr, dbr, dbrPtr, w'', hh, heq, hg, hfd, -, hdbr, hparts,
      hgoes⟩ := createQp_built env a c w' hb
    have hkey := memFree_devPtr_of_gpuMem env hparts.block.1
    have hfds := hfd.trans (Nat.add_assoc _ _ _)
    rw [heq, QpCalls.stage_iff_built hb hh]
    refine (h.append (q := env.Keyed) hg (by simp) hfds (fun hk => ?_) fun hk => ?_).congr ?_
    · simp [QpOut.teardown, hkey, hk, hdbr.tear]
    · simp [QpOut.teardown, hkey, hk]
    · simp [hgoes.qp, hgoes.umem, hgoes.block, hgoes.umemDbr, hgoes.dbr]
  | false =>
    have hfail := createQp_failed env a c w' hb
    have hstage : c.Stage env a ↔ c.Clean env a :=
      ⟨fun hs => hs.clean hb, fun hc => ⟨fun _ => hc, by simp [hb], by simp [hb], by simp [hb],
        by simp [hb], by simp [hb], by simp [hb], by simp [hb], by simp [hb]⟩⟩
    rw [hfail.out, hstage]
    exact h.fail hfail.ends

/-! ## High-level queue pairs -/

/-- The parts of a queue pair; `sqDb` is the export of its UAR, or the doorbell of the CPU proxy. -/
structure HlParts where
  sqDb : Res
  gverbs : Res
  qp : Res
  umem : Res
  block : Res
  umemDbr : Res
  dbr : Res
  cq : Res
  cqUmem : Res
  cqBlock : Res

/-- All of them. -/
def HlParts.all (x : HlParts) : List Res :=
  [x.sqDb, x.gverbs, x.qp, x.umem, x.block, x.umemDbr, x.dbr, x.cq, x.cqUmem, x.cqBlock]

/-- What `create_qp` is given for a queue pair. -/
def HlQp.args (q : HlQp) (attr : QpInitAttrHl) : QpArgs :=
  ⟨q.cqSq.verbsCq, q.externalUar, attr.nicHandler, q.sendDbrModeExt⟩

/-- `sq_db` of a queue pair. -/
def Env.sqDb (env : Env) (nicHandler : NicHandler) (r : Res) : Res :=
  if nicHandler = .cpuProxy then env.cpuDb r else env.uarDb r

/-- `doca_gpu_verbs_unexport_qp` knows the doorbell by its `sq_db`. -/
def Env.keyedDb (env : Env) (nicHandler : NicHandler) : Bool :=
  if nicHandler = .cpuProxy then env.hostPointerOnDevice else env.uarPointerOnDevice

/-- What the doorbell of a queue pair is. -/
structure SqDb (nicHandler : NicHandler) (uar : Option Res) (r : Res) : Prop where
  kind : r.kind = if nicHandler = .cpuProxy then .gpuMem else .uarExport
  refs : r.refs = if nicHandler = .cpuProxy then [] else uar.toList.map (·.id)

theorem SqDb.unexportQp {nicHandler : NicHandler} {uar : Option Res} {r : Res}
    (h : SqDb nicHandler uar r) (env : Env) (g : Res) :
    unexportQp nicHandler ⟨g, env.sqDb nicHandler r⟩ =
      [if env.keyedDb nicHandler then r else .stray, g] := by
  have hkind := h.kind
  unfold Lifecycle.unexportQp Env.sqDb Env.keyedDb
  by_cases hproxy : nicHandler = .cpuProxy
  · simp only [hproxy, if_true] at hkind ⊢
    cases hptr : env.hostPointerOnDevice <;> simp [Env.cpuDb, memFree, hptr, hkind]
  · simp only [hproxy, if_false] at hkind ⊢
    cases hptr : env.uarPointerOnDevice <;> simp [Env.uarDb, unexportUar, hptr, hkind]

/-- A queue pair whose handles are set to its parts; its CQ is created on `uarCq`. -/
structure HlBuilt (env : Env) (attr : QpInitAttrHl) (uarCq : Option Res) (q : HlQp) (x : HlParts) :
    Prop where
  qpGverbs : q.qpGverbs = some ⟨x.gverbs, env.sqDb q.nicHandler x.sqDb⟩
  qp : ∃ dbrPtr, q.qp = ⟨some x.qp, some x.umem, some (env.devPtr x.block), some x.umemDbr,
    some dbrPtr, some q.nicHandler⟩ ∧ DbrPtr env (q.args attr) q.nicHandler x.dbr dbrPtr
  cqSq : q.cqSq = ⟨some x.cq, some x.cqUmem, some (env.devPtr x.cqBlock)⟩
  gverbs : x.gverbs.kind = .gverbs ∧ x.gverbs.refs = [x.qp.id, x.cq.id]
  sqDb : SqDb q.nicHandler q.externalUar x.sqDb
  qpParts : QpParts (q.args attr) q.nicHandler x.qp x.umem x.block x.umemDbr x.dbr
  cqParts : CqParts uarCq x.cq x.cqUmem x.cqBlock

section Built

variable {attr : QpInitAttrHl} {uarCq : Option Res} {q : HlQp} {x : HlParts}

/-- What the teardown gives back of a queue pair, on a UAR or with its handle of it cleared. -/
theorem HlBuilt.teardown (h : HlBuilt env attr uarCq q x) (uar : Option Res) :
    { q with externalUar := uar }.teardown =
      [if env.keyedDb q.nicHandler then x.sqDb else .stray, x.gverbs, x.qp, x.umem,
        if env.Keyed then x.block else .stray, x.umemDbr,
        if env.Keyed ∨ dbrOnHost q.nicHandler q.sendDbrModeExt = true then x.dbr else .stray] ++
      uar.toList ++ [x.cq, x.cqUmem, if env.Keyed then x.cqBlock else .stray] := by
  obtain ⟨dbrPtr, hqp, hdbr⟩ := h.qp
  have htear : tearDbr q.nicHandler q.sendDbrModeExt dbrPtr = _ := hdbr.tear
  have hkey := memFree_devPtr_of_gpuMem env h.qpParts.block.1
  have hkey' := memFree_devPtr_of_gpuMem env h.cqParts.block.1
  rw [HlQp.teardown_eq]
  simp only [h.qpGverbs, hqp, h.cqSq, QpOut.teardown, CqOut.teardown, Option.toList_some,
    List.flatMap_cons, List.flatMap_nil, List.append_nil, h.sqDb.unexportQp, List.map_cons,
    List.map_nil, htear, hkey, hkey', List.cons_append, List.nil_append]
  rfl

theorem HlBuilt.teardown_perm (h : HlBuilt env attr uarCq q x) (uar : Option Res) (hk : env.Keyed)
    (hdb : env.keyedDb q.nicHandler = true) :
    ({ q with externalUar := uar }.teardown).Perm (x.all ++ uar.toList) := by
  rw [h.teardown uar]
  simp only [hk, hdb, true_or, if_true]
  cases uar with
  | none => exact .refl _
  | some r =>
    simp only [HlParts.all, Option.toList_some]
    grind

end Built

/-! ## How a queue pair ends -/

/-- The calls for the QP of a queue pair leave nothing behind and end at `exit_error` or well:
`calloc` of the doorbell record does not fail, nor the export, which can be taken back by its key.
-/
structure HlCalls.QpStage (c : HlCalls) (env : Env) (a : QpArgs) : Prop where
  stage : c.qp.Stage env a
  calloc : c.qp.callocFails env a = false
  exportQp : c.qp.built env a = true → c.exportQp = true
  keyedDb : c.qp.built env a = true → (c.qp.handler a).any env.keyedDb = true
  unexport : c.qp.built env a = true → c.unexport = true

/-- What a creation leaves: at `exit_error` and after it `tear` gives back what is owed, exactly
under `p`, and `keep` holds of the struct; with a bare `return` something is lost. `built` says
whether the QP is made. -/
def Outcome (w : World) (rs : List Res) (p : Prop) (built : Bool) (tear : HlQp → List Res)
    (keep good : HlQp → Prop) : Ending × HlQp × World → Prop
  | (.exitError, q, w') => Owes w w' (tear q ++ rs) p ∧ built = false ∧ keep q
  | (.returned, _, w') => Lost w w' ∧ ¬ p
  | (.built, q, w') => Owes w w' (tear q ++ rs) p ∧ built = true ∧ keep q ∧ good q

/-- What the teardown gives back before the UAR and the CQ. -/
def HlQp.tearQp (q : HlQp) : List Res :=
  q.qpGverbs.toList.flatMap (unexportQp q.nicHandler) ++
    q.qp.teardown q.nicHandler q.sendDbrModeExt

theorem Outcome.imp {p' : Prop} {built built' : Bool} {rs' : List Res}
    {tear tear' : HlQp → List Res} {keep keep' good good' : HlQp → Prop} {r : Ending × HlQp × World}
    (h : Outcome w rs p built tear keep good r) (hp : p' ↔ p) (hb : built' = built)
    (ht : ∀ q, keep q → (tear q ++ rs).Perm (tear' q ++ rs')) (hk : ∀ q, keep q → keep' q)
    (hg : ∀ q, keep q → good q → good' q) : Outcome w rs' p' built' tear' keep' good' r := by
  subst hb
  obtain ⟨ending, q, w'⟩ := r
  cases ending with
  | exitError => exact ⟨(h.1.perm (ht q h.2.2)).congr hp, h.2.1, hk q h.2.2⟩
  | returned => exact ⟨h.1, fun hp' => h.2 (hp.1 hp')⟩
  | built => exact ⟨(h.1.perm (ht q h.2.2.1)).congr hp, h.2.1, hk q h.2.2.1, hg q h.2.2.1 h.2.2.2⟩

theorem createAndExport_null {attr : QpInitAttrHl} {c : HlCalls} {q : HlQp} {status : Status}
    (hm : createQp env (q.args attr) c.qp w = ⟨status, .null, w'⟩) :
    createAndExport env attr c q w =
      (if status = .success then .returned else .exitError, { q with qp := .null }, w') := by
  unfold createAndExport
  simp only [HlQp.args] at hm ⊢
  simp only [hm]
  cases status <;> rfl

theorem createAndExport_failed (attr : QpInitAttrHl) (c : HlCalls) (q : HlQp) (w : World)
    (hb : c.qp.built env (q.args attr) = false) :
    createAndExport env attr c q w =
      (if c.qp.callocFails env (q.args attr) = true then .returned else .exitError,
        { q with qp := .null }, (createQp env (q.args attr) c.qp w).world) := by
  have hfail := createQp_failed env (q.args attr) c.qp w hb
  have hm : createQp env (q.args attr) c.qp w = ⟨(createQp env (q.args attr) c.qp w).status, .null,
      (createQp env (q.args attr) c.qp w).world⟩ := by rw [← hfail.out]
  rw [createAndExport_null hm]
  simp only [hfail.status]

theorem createAndExport_built {attr : QpInitAttrHl} {c : HlCalls} {q : HlQp} {out : QpOut}
    {nic : NicHandler} {qp cq : Res}
    (hm : createQp env (q.args attr) c.qp w = ⟨.success, out, w'⟩) (hqp : out.verbsQp = some qp)
    (hnic : out.nicHandler = some nic) (hcq : q.cqSq.verbsCq = some cq) :
    createAndExport env attr c q w =
      if c.exportQp = true then
        (.built, { q with
          qp := out, nicHandler := nic
          qpGverbs := some (exportQp env nic q.externalUar qp cq c.unexport w').1 },
          (exportQp env nic q.externalUar qp cq c.unexport w').2)
      else (.returned, { q with qp := out, nicHandler := nic }, w') := by
  unfold createAndExport
  simp only [HlQp.args, hcq] at hm ⊢
  simp only [hm, hqp, hnic, Option.getD_some]
  cases c.exportQp <;> rfl

/-- The parts that are made with the QP. -/
def HlParts.ofQp (x : HlParts) : List Res :=
  [x.sqDb, x.gverbs, x.qp, x.umem, x.block, x.umemDbr, x.dbr]

/-- The outcomes of the calls that give back what is made with the QP. -/
structure HlGoes (c : HlCalls) (a : QpArgs) (nic : NicHandler) (x : HlParts) : Prop where
  sqDb : x.sqDb.goes = c.unexport
  gverbs : x.gverbs.goes = true
  qp : QpGoes c.qp a nic x.qp x.umem x.block x.umemDbr x.dbr

/-- What is exported. -/
theorem exportQp_makes (env : Env) (nic : NicHandler) (uar : Option Res) (qp cq : Res) (goes : Bool)
    (w : World) :
    ∃ (g r : Res) (w' : World), exportQp env nic uar qp cq goes w = (⟨g, env.sqDb nic r⟩, w') ∧
      w.Grown w' [r, g] ∧ w'.openFds = w.openFds ∧
      (g.kind = .gverbs ∧ g.refs = [qp.id, cq.id]) ∧ SqDb nic uar r ∧
      r.goes = goes ∧ g.goes = true := by
  have hg := (Grown.refl w).acquire .gverbs [qp.id, cq.id] true
  unfold exportQp Env.sqDb
  by_cases hproxy : nic = .cpuProxy
  · simp only [hproxy, if_true]
    exact ⟨_, _, _, rfl, hg.acquire .gpuMem [] goes, rfl, ⟨rfl, rfl⟩, ⟨rfl, rfl⟩, rfl, rfl⟩
  · simp only [hproxy, if_false]
    refine ⟨_, _, _, rfl, hg.acquire .uarExport (uar.toList.map (·.id)) goes, rfl, ⟨rfl, rfl⟩,
      ⟨?_, ?_⟩, rfl, rfl⟩
    · simp [hproxy, fresh]
    · simp [hproxy, fresh]

/-- Where the QP is made and exported the queue pair is built. -/
theorem createAndExport_success {attr : QpInitAttrHl} {uarCq : Option Res} {c : HlCalls} {q : HlQp}
    {cqUmem cqBlock : Res} (hb : c.qp.built env (q.args attr) = true)
    (hcq : ∀ cq ∈ q.cqSq.verbsCq, q.cqSq = ⟨cq, cqUmem, env.devPtr cqBlock⟩ ∧
      CqParts uarCq cq cqUmem cqBlock) :
    ∃ (x : HlParts) (out : QpOut) (nic : NicHandler) (w' w'' : World),
      (c.qp.handler (q.args attr) = some nic ∧
        createQp env (q.args attr) c.qp w = ⟨.success, out, w'⟩ ∧ out.nicHandler = some nic ∧
        out.verbsQp = some x.qp) ∧
      createAndExport env attr c q w =
        (if c.exportQp = true then
          (.built, { q with
            qp := out, nicHandler := nic, qpGverbs := some ⟨x.gverbs, env.sqDb nic x.sqDb⟩ }, w'')
        else (.returned, { q with qp := out, nicHandler := nic }, w')) ∧
      HlBuilt env attr uarCq { q with
        qp := out, nicHandler := nic, qpGverbs := some ⟨x.gverbs, env.sqDb nic x.sqDb⟩ } x ∧
      HlGoes c (q.args attr) nic x ∧ w.Grown w'' x.ofQp ∧
      (w'.Grown w'' [x.sqDb, x.gverbs] ∧ w''.openFds = w'.openFds) ∧
      ∃ cq, q.cqSq.verbsCq = some cq ∧ x.cq = cq ∧ x.cqUmem = cqUmem ∧ x.cqBlock = cqBlock := by
  obtain ⟨nic, qp, umem, block, umemDbr, dbr, dbrPtr, w', hh, heq, hg, -, -, hdbr, hparts, hgoes⟩ :=
    createQp_built env (q.args attr) c.qp w hb
  obtain ⟨-, uar, -, cq, hcqmem, -⟩ := hparts.qp
  obtain ⟨hcqSq, hcqParts⟩ := hcq cq hcqmem
  obtain ⟨g, r, w'', hexport, hg', hfd, hgv, hr, hrgoes, hggoes⟩ :=
    exportQp_makes env nic q.externalUar qp cq c.unexport w'
  refine ⟨⟨r, g, qp, umem, block, umemDbr, dbr, cq, cqUmem, cqBlock⟩, _, nic, w', w'',
    ⟨hh, heq, rfl, rfl⟩, ?_, ?_, ⟨hrgoes, hggoes, hgoes⟩, hg.append hg', ⟨hg', hfd⟩, cq, hcqmem,
    rfl, rfl, rfl⟩
  · rw [createAndExport_built heq rfl rfl hcqmem, hexport]
  · exact ⟨rfl, ⟨dbrPtr, rfl, hdbr⟩, hcqSq, hgv, hr, hparts, hcqParts⟩

variable (env) in
/-- What an exported queue pair owes. -/
theorem Owes.exported {nic : NicHandler} {uar : Option Res} {r g : Res} (h : Owes w w' rs p)
    (hg : w'.Grown w'' [r, g]) (hfd : w''.openFds = w'.openFds) (hr : SqDb nic uar r)
    (hgoes : g.goes = true) :
    Owes w w'' (unexportQp nic ⟨g, env.sqDb nic r⟩ ++ rs)
      (p ∧ env.keyedDb nic = true ∧ r.goes = true) := by
  have hun := hr.unexportQp env g
  refine (h.append (n := 0) (q := env.keyedDb nic = true) hg (by simp) hfd (fun hk => ?_)
    fun hk => ?_).congr ?_
  · simp [hun, hk]
  · simp [hun, hk]
  · simp [hgoes]

theorem createAndExport_outcome (attr : QpInitAttrHl) (uarCq : Option Res) (c : HlCalls) (q : HlQp)
    {cqUmem cqBlock : Res} (h : Owes w w' rs p) (hrs : rs ≠ []) (hg : q.qpGverbs = none)
    (hcq : ∀ cq ∈ q.cqSq.verbsCq, q.cqSq = ⟨cq, cqUmem, env.devPtr cqBlock⟩ ∧
      CqParts uarCq cq cqUmem cqBlock) :
    Outcome w rs (p ∧ c.QpStage env (q.args attr)) (c.qp.built env (q.args attr)) HlQp.tearQp
      (fun q' => q'.externalUar = q.externalUar ∧ q'.cqSq = q.cqSq)
      (fun q' => ∃ x, HlBuilt env attr uarCq q' x) (createAndExport env attr c q w') := by
  have howes := createQp_owes env h (q.args attr) c.qp q.nicHandler
  cases hb : c.qp.built env (q.args attr) with
  | true =>
    obtain ⟨x, out, nic, w₁, w'', ⟨hh, hm, hnic, hqp⟩, heq, hx, hgoes, -, ⟨hgrown, hfd⟩, -⟩ :=
      createAndExport_success (w := w') hb hcq
    rw [heq]
    rw [hm] at howes
    cases hexport : c.exportQp with
    | true =>
      rw [if_pos rfl]
      have hcalloc : c.qp.callocFails env (q.args attr) = false := QpCalls.callocFails_of_built hb
      have hexp := howes.exported env hgrown hfd hx.sqDb hgoes.gverbs
      refine ⟨(hexp.perm ?_).congr ?_, rfl, ⟨rfl, rfl⟩, x, hx⟩
      · simp only [hnic, Option.getD_some, HlQp.tearQp, Option.toList_some, List.flatMap_cons,
          List.flatMap_nil, List.append_nil, List.append_assoc]
        exact .refl _
      · rw [hgoes.sqDb, and_assoc]
        refine and_congr_right fun _ => ⟨fun hs => ?_, fun ⟨hs, hk, hun⟩ => ?_⟩
        · have hk := hs.keyedDb hb
          rw [hh] at hk
          exact ⟨hs.stage, hk, hs.unexport hb⟩
        · exact ⟨hs, hcalloc, fun _ => hexport, fun _ => by rwa [hh], fun _ => hun⟩
    | false =>
      rw [if_neg Bool.false_ne_true]
      refine ⟨howes.lost (by simp [QpOut.teardown, hqp]), fun hs => ?_⟩
      rw [hs.2.exportQp hb] at hexport
      cases hexport
  | false =>
    have hfail := createQp_failed env (q.args attr) c.qp w' hb
    rw [createAndExport_failed attr c q w' hb]
    rw [hfail.out] at howes
    have hstage : c.QpStage env (q.args attr) ↔
        c.qp.Stage env (q.args attr) ∧ c.qp.callocFails env (q.args attr) = false :=
      ⟨fun hs => ⟨hs.stage, hs.calloc⟩,
        fun hs => ⟨hs.1, hs.2, by simp [hb], by simp [hb], by simp [hb]⟩⟩
    cases hcalloc : c.qp.callocFails env (q.args attr) with
    | true => exact ⟨howes.lost (by simpa [QpOut.teardown, QpOut.null] using hrs),
        fun hs => by simpa [hcalloc] using hs.2.calloc⟩
    | false =>
      refine ⟨(howes.perm ?_).congr ?_, rfl, rfl, rfl⟩
      · simp [HlQp.tearQp, hg, QpOut.teardown, QpOut.null]
      · simp [hstage, hcalloc]

/-! ## The condition on the calls -/

/-- Two arguments that agree in which resources there are. -/
structure QpArgs.Like (a a' : QpArgs) : Prop where
  cqSq : a.cqSq.isSome = a'.cqSq.isSome
  externalUar : a.externalUar.isSome = a'.externalUar.isSome
  reqNicHandler : a.reqNicHandler = a'.reqNicHandler
  sendDbrModeExt : a.sendDbrModeExt = a'.sendDbrModeExt

section Like

variable {a a' : QpArgs} {c : QpCalls} {h : NicHandler}

theorem QpArgs.Like.handler (hl : a.Like a') : c.handler a = c.handler a' := by
  unfold QpCalls.handler
  rw [hl.externalUar, hl.reqNicHandler, hl.sendDbrModeExt]

theorem QpArgs.Like.creates (hl : a.Like a') : c.creates env a h = c.creates env a' h := by
  unfold QpCalls.creates QpCalls.hasDbr QpCalls.finishes QpCalls.mregDbr
  rw [hl.cqSq, hl.sendDbrModeExt]

theorem QpArgs.Like.built (hl : a.Like a') : c.built env a = c.built env a' := by
  unfold QpCalls.built
  rw [hl.handler]
  simp only [hl.creates]

theorem QpArgs.Like.callocFails (hl : a.Like a') : c.callocFails env a = c.callocFails env a' := by
  unfold QpCalls.callocFails
  rw [hl.handler]
  simp only [hl.sendDbrModeExt]

theorem QpArgs.Like.clean (hl : a.Like a') : c.Clean env a ↔ c.Clean env a' := by
  unfold QpCalls.Clean
  simp only [QpCalls.cleanFrom_iff, hl.handler, hl.creates, QpCalls.hasDbr, QpCalls.FreesDbr,
    QpCalls.mregDbr, QpCalls.dbrGoes, hl.sendDbrModeExt]

theorem QpArgs.Like.symm (hl : a.Like a') : a'.Like a :=
  ⟨hl.cqSq.symm, hl.externalUar.symm, hl.reqNicHandler.symm, hl.sendDbrModeExt.symm⟩

theorem QpArgs.Like.stage (hl : a.Like a') (hs : c.Stage env a) : c.Stage env a' where
  clean hb := hl.clean.1 (hs.clean (hl.built.trans hb))
  keyed hb := hs.keyed (hl.built.trans hb)
  closed hb := hs.closed (hl.built.trans hb)
  closedDbr hb := by
    rw [← hl.handler, ← hl.sendDbrModeExt]
    exact hs.closedDbr (hl.built.trans hb)
  destroy hb := hs.destroy (hl.built.trans hb)
  dereg hb := hs.dereg (hl.built.trans hb)
  memFree hb := hs.memFree (hl.built.trans hb)
  deregDbr hb := hs.deregDbr (hl.built.trans hb)
  dbrGoes hb := by
    have hdbr := hs.dbrGoes (hl.built.trans hb)
    unfold QpCalls.dbrGoes at hdbr ⊢
    rwa [← hl.handler, ← hl.sendDbrModeExt]

theorem QpArgs.Like.qpStage {c : HlCalls} (hl : a.Like a') (hs : c.QpStage env a) :
    c.QpStage env a' where
  stage := hl.stage hs.stage
  calloc := hl.callocFails.symm.trans hs.calloc
  exportQp hb := hs.exportQp (hl.built.trans hb)
  keyedDb hb := hl.handler ▸ hs.keyedDb (hl.built.trans hb)
  unexport hb := hs.unexport (hl.built.trans hb)

theorem QpArgs.Like.qpStage_iff {c : HlCalls} (hl : a.Like a') :
    c.QpStage env a ↔ c.QpStage env a' := ⟨hl.qpStage, hl.symm.qpStage⟩

end Like

namespace HlCalls

/-- `create_cq` returns success. -/
def goesOn (c : HlCalls) (env : Env) : Bool := c.cq.built env || c.cq.copyFails env

/-- What `create_qp` is given, but for which resources they are. -/
def args (c : HlCalls) (env : Env) (attr : QpInitAttrHl) (uar : Bool) : QpArgs where
  cqSq := if c.cq.built env then some .stray else none
  externalUar := if uar then some .stray else none
  reqNicHandler := attr.nicHandler
  sendDbrModeExt := attr.sendDbrModeExt

/-- The calls for a queue pair on a UAR, if there is one. -/
structure PairStage (c : HlCalls) (env : Env) (attr : QpInitAttrHl) (uar : Bool) : Prop where
  cq : c.CqStage env
  qp : c.goesOn env = true → c.QpStage env (c.args env attr uar)

/-- The calls for a single queue pair. -/
structure SingleStage (c : HlCalls) (env : Env) (attr : QpInitAttrHl) : Prop where
  cq : c.CqStage env
  uar : c.goesOn env = true → c.uar.made attr.nicHandler = true → c.uar.destroy = true
  qp : c.goesOn env = true → c.uar.goesOn attr.nicHandler = true →
    c.QpStage env (c.args env attr (c.uar.made attr.nicHandler))

end HlCalls

variable (env) in
theorem createCq_status (c : HlCalls) (uar : Option Res) (w : World) :
    (createCq env uar c.cq w).status = .success ↔ c.goesOn env = true := by
  unfold HlCalls.goesOn
  cases hb : c.cq.built env with
  | true =>
    obtain ⟨cq, umem, block, w', heq, -⟩ := createCq_built uar w hb
    simp [heq]
  | false => simpa using (createCq_failed uar w hb).status

variable (env) in
theorem createCq_out (c : HlCalls) (uar : Option Res) (w : World) :
    (createCq env uar c.cq w).out.verbsCq.isSome = c.cq.built env ∧
      ∃ cqUmem cqBlock : Res, ∀ cq ∈ (createCq env uar c.cq w).out.verbsCq,
        (createCq env uar c.cq w).out = ⟨cq, cqUmem, env.devPtr cqBlock⟩ ∧
          CqParts uar cq cqUmem cqBlock := by
  cases hb : c.cq.built env with
  | true =>
    obtain ⟨cq, umem, block, w', heq, -, -, hparts, -⟩ := createCq_built uar w hb
    rw [heq]
    refine ⟨rfl, umem, block, fun r hr => ?_⟩
    obtain rfl := Option.some.inj hr
    exact ⟨rfl, hparts⟩
  | false =>
    rw [(createCq_failed uar w hb).verbsCq]
    exact ⟨rfl, .stray, .stray, fun r hr => by cases hr⟩

/-- The stand-in for the arguments of `create_qp`. -/
theorem HlCalls.args_like (c : HlCalls) (attr : QpInitAttrHl) {cq uar : Option Res} {made : Bool}
    (hcq : cq.isSome = c.cq.built env) (huar : uar.isSome = made) :
    (c.args env attr made).Like ⟨cq, uar, attr.nicHandler, attr.sendDbrModeExt⟩ where
  cqSq := by
    rw [hcq]
    unfold HlCalls.args
    cases c.cq.built env <;> rfl
  externalUar := by
    rw [huar]
    unfold HlCalls.args
    cases made <;> rfl
  reqNicHandler := rfl
  sendDbrModeExt := rfl

theorem HlCalls.goesOn_of_built (c : HlCalls) (hb : c.cq.built env = true) :
    c.goesOn env = true := by
  unfold HlCalls.goesOn
  rw [hb, Bool.true_or]

/-- Without a CQ no QP is made. -/
theorem HlCalls.not_built (c : HlCalls) {attr : QpInitAttrHl} {made : Bool}
    (hcq : ¬ c.cq.built env = true) : c.qp.built env (c.args env attr made) = false := by
  have hno : (c.args env attr made).cqSq = none := if_neg hcq
  unfold QpCalls.built QpCalls.creates QpCalls.finishes
  simp [hno]

/-- Nor without a UAR. -/
theorem HlCalls.not_built_of_uar (c : HlCalls) {attr : QpInitAttrHl} :
    c.qp.built env (c.args env attr false) = false := by
  unfold QpCalls.built QpCalls.handler HlCalls.args
  simp

variable (env) in
theorem createOnUar_outcome (attr : QpInitAttrHl) (c : HlCalls) (h : Owes w w' rs p) (hrs : rs ≠ [])
    (uar : Option Res) :
    Outcome w rs (p ∧ c.PairStage env attr uar.isSome) (c.qp.built env (c.args env attr uar.isSome))
      (fun q => q.clearUar.teardown)
      (fun q => q.externalUar = uar) (fun q => ∃ x, HlBuilt env attr uar q x)
      (createOnUar env attr uar c w') := by
  have hcq := createCq_owes env h uar c
  have hstatus := createCq_status env c uar w'
  obtain ⟨hsome, cqUmem, cqBlock, hout⟩ := createCq_out env c uar w'
  have hpair : c.PairStage env attr uar.isSome ↔ c.CqStage env ∧
      (c.goesOn env = true → c.QpStage env (c.args env attr uar.isSome)) :=
    ⟨fun hs => ⟨hs.cq, hs.qp⟩, fun hs => ⟨hs.1, hs.2⟩⟩
  unfold createOnUar
  cases hs : (createCq env uar c.cq w').status with
  | error =>
    have hgo : ¬ c.goesOn env = true := by
      rw [← hstatus, hs]
      exact nofun
    simp only [hs]
    refine ⟨(hcq.perm ?_).congr ?_, c.not_built (fun hb => hgo (c.goesOn_of_built hb)), rfl⟩
    · show (_ ++ rs).Perm (HlQp.teardown _ ++ rs)
      rw [HlQp.teardown_eq]
      exact .refl _
    · simp [hpair, hgo]
  | success =>
    have hgo := hstatus.1 hs
    simp only [hs]
    have hcore := createAndExport_outcome attr uar c ({ HlQp.zero attr.sendDbrModeExt with
        externalUar := uar, cqSq := (createCq env uar c.cq w').out })
      hcq (by simp [hrs]) rfl hout
    refine hcore.imp ?_ ?_ ?_ ?_ ?_
    · have hlike := c.args_like attr hsome (rfl : uar.isSome = _)
      rw [hpair, hlike.qpStage_iff, and_assoc]
      simp only [hgo, forall_const]
      rfl
    · exact (c.args_like attr hsome rfl).built
    · rintro q ⟨huar, hcqSq⟩
      rw [HlQp.teardown_eq, HlQp.tearQp, List.append_assoc, List.append_assoc, List.append_assoc]
      simp only [HlQp.clearUar, Option.toList_none, List.nil_append, hcqSq, List.append_assoc]
      exact .refl _
    · exact fun q hq => hq.1
    · exact fun q _ hq => hq

theorem createUar_made (c : UarCalls) (nicHandler : NicHandler) (w : World) :
    (createUar nicHandler c w).out.isSome = c.made nicHandler ∧
      ((createUar nicHandler c w).status = .success ↔ c.goesOn nicHandler = true) := by
  unfold createUar UarCalls.made UarCalls.goesOn
  by_cases hbf : nicHandler = .gpuSmBf
  · cases hcall : c.blueflame <;> simp [hbf]
  · cases hcall : (c.ncDedicated || c.nc) <;> simp [hbf]

variable (env) in
theorem createSingle_outcome (attr : QpInitAttrHl) (c : HlCalls) (h : Owes w w' rs p)
    (hrs : rs ≠ []) :
    Outcome w rs (p ∧ c.SingleStage env attr)
      (c.qp.built env (c.args env attr (c.uar.made attr.nicHandler))) HlQp.teardown (fun _ => True)
      (fun q => ∃ x, HlBuilt env attr none q x) (createSingle env attr c w') := by
  have hcq := createCq_owes env h none c
  have hstatus := createCq_status env c none w'
  obtain ⟨hsome, cqUmem, cqBlock, hout⟩ := createCq_out env c none w'
  have hsingle : c.SingleStage env attr ↔ c.CqStage env ∧
      (c.goesOn env = true → c.uar.made attr.nicHandler = true → c.uar.destroy = true) ∧
      (c.goesOn env = true → c.uar.goesOn attr.nicHandler = true →
        c.QpStage env (c.args env attr (c.uar.made attr.nicHandler))) :=
    ⟨fun hs => ⟨hs.cq, hs.uar, hs.qp⟩, fun hs => ⟨hs.1, hs.2.1, hs.2.2⟩⟩
  unfold createSingle
  cases hs : (createCq env none c.cq w').status with
  | error =>
    have hgo : ¬ c.goesOn env = true := by
      rw [← hstatus, hs]
      exact nofun
    simp only [hs]
    refine ⟨(hcq.perm ?_).congr ?_, c.not_built (fun hb => hgo (c.goesOn_of_built hb)), trivial⟩
    · rw [HlQp.teardown_eq]
      exact .refl _
    · simp [hsingle, hgo]
  | success =>
    have hgo := hstatus.1 hs
    have huar := createUar_owes hcq attr.nicHandler c.uar
    obtain ⟨hmade, hustatus⟩ :=
      createUar_made c.uar attr.nicHandler (createCq env none c.cq w').world
    simp only [hs]
    cases hus : (createUar attr.nicHandler c.uar (createCq env none c.cq w').world).status with
    | error =>
      have hugo : ¬ c.uar.goesOn attr.nicHandler = true := by
        rw [← hustatus, hus]
        exact nofun
      have hnot : c.qp.built env (c.args env attr (c.uar.made attr.nicHandler)) = false := by
        have hno : c.uar.made attr.nicHandler = false := by
          unfold UarCalls.goesOn at hugo
          unfold UarCalls.made
          cases hblue : c.uar.blueflame <;> simp_all
        rw [hno]
        exact c.not_built_of_uar
      refine ⟨(huar.perm ?_).congr ?_, hnot, trivial⟩
      · rw [HlQp.teardown_eq, List.append_assoc]
        exact .refl _
      · simp [hsingle, hgo, hugo, and_assoc]
    | success =>
      have hugo := hustatus.1 hus
      have hcore := createAndExport_outcome attr none c ({ HlQp.zero attr.sendDbrModeExt with
          cqSq := (createCq env none c.cq w').out
          externalUar := (createUar attr.nicHandler c.uar (createCq env none c.cq w').world).out
          nicHandler := attr.nicHandler })
        huar (by simp [hrs]) rfl hout
      refine hcore.imp ?_ ?_ ?_ ?_ ?_
      · have hlike := c.args_like attr hsome hmade
        rw [hsingle, hlike.qpStage_iff, and_assoc, and_assoc]
        simp only [hgo, hugo, forall_const]
        rfl
      · exact (c.args_like attr hsome hmade).built
      · rintro q ⟨huar, hcqSq⟩
        rw [HlQp.teardown_eq, HlQp.tearQp, huar, hcqSq]
        simp only [List.append_assoc]
        exact .refl _
      · exact fun _ _ => trivial
      · exact fun q _ hq => hq

/-! ## Single queue pairs and groups -/

/-- What a creation of a queue pair is to leave: on an error everything has been given back; on
success the queue pair has all its parts, they are what has been acquired, and its destruction
gives all back. -/
def SingleBalanced (env : Env) (attr : QpInitAttrHl) (w : World) :
    Option (Res × HlQp) × World → Prop
  | (none, w') => w.Returned w'
  | (some (qp, q), w') =>
    (∃ x, HlBuilt env attr none q x ∧ w.Grown w' (x.all ++ q.externalUar.toList ++ [qp])) ∧
      w.Returned (destroyQpHl (qp, q) w')

/-- What a creation of a group is to leave. -/
def GroupBalanced (env : Env) (attr : QpInitAttrHl) (w : World) :
    Option (Res × HlQp × HlQp) × World → Prop
  | (none, w') => w.Returned w'
  | (some (qpg, q, q'), w') =>
    (∃ uar x x', HlBuilt env attr (some uar) q x ∧ HlBuilt env attr (some uar) q' x' ∧
        q.externalUar = uar ∧ q'.externalUar = uar ∧
        w.Grown w' (x.all ++ x'.all ++ [uar, qpg])) ∧
      w.Returned (destroyQpGroupHl (qpg, q, q') w')

/-- What is owed can be given back only by its keys. -/
theorem HlBuilt.keyed {attr : QpInitAttrHl} {uarCq : Option Res} {q : HlQp} {x : HlParts}
    (h : HlBuilt env attr uarCq q x) (uar : Option Res) (hg : w.Grown w' l)
    (hl : ∀ r ∈ { q with externalUar := uar }.teardown, r ∈ l) :
    env.Keyed ∧ env.keyedDb q.nicHandler = true := by
  have hno : .stray ∉ { q with externalUar := uar }.teardown :=
    fun hmem => absurd (hg.fresh _ (hl _ hmem)) (not_le.2 w.pos)
  rw [h.teardown uar] at hno
  refine ⟨by_contra fun hk => hno ?_, by_contra fun hdb => hno ?_⟩
  · simp [hk]
  · simp [hdb]

/-- **Where `doca_gpu_verbs_create_qp_hl` is balanced.** -/
theorem createQpHl_balanced_iff (attr : QpInitAttrHl) (calloc : Bool) (c : HlCalls)
    (hm : w.misuse = false) :
    SingleBalanced env attr w (createQpHl env attr calloc c w) ↔
      ((argsValid attr true && !attr.netDevNull && calloc) = true → c.SingleStage env attr) := by
  unfold createQpHl
  by_cases hargs : (argsValid attr true && !attr.netDevNull && calloc) = true
  swap
  · rw [Bool.not_eq_true] at hargs
    simp only [hargs, Bool.not_false, if_true]
    exact iff_of_true ⟨.refl w, rfl⟩ nofun
  simp only [hargs, Bool.not_true, Bool.false_eq_true, if_false, forall_const]
  have hout := createSingle_outcome env attr c
    (Owes.struct w) (by simp)
  generalize createSingle env attr c (w.acquire .host [] true) = r at hout ⊢
  obtain ⟨ending, q, w'⟩ := r
  cases ending with
  | exitError =>
    have hends := hout.1.exit (.refl _)
    exact (hends.returned_iff hm).trans (iff_of_eq (true_and _))
  | returned =>
    exact iff_of_false (hout.1.not_returned hm) fun h => hout.2 ⟨trivial, h⟩
  | built =>
    obtain ⟨howes, -, -, x, hx⟩ := hout
    have hends := howes.exit (.refl _)
    have hret := (hends.returned_iff hm).trans (iff_of_eq (true_and _))
    refine ⟨fun h => hret.1 h.2, fun h => ⟨⟨x, hx, ?_⟩, hret.2 h⟩⟩
    have hg := (howes.grown ⟨trivial, h⟩).1
    obtain ⟨hk, hdb⟩ := hx.keyed q.externalUar hg fun r hr => List.mem_append_left _ hr
    exact hg.perm ((hx.teardown_perm q.externalUar hk hdb).append_right _)

/-- The calls for a group: for the UAR, for the main queue pair, and for the companion if the main
one is made. -/
structure GroupStage (env : Env) (attr : QpInitAttrHl) (uar : UarCalls) (main companion : HlCalls) :
    Prop where
  uarStage : uar.made .auto = true → uar.destroy = true
  mainStage : main.PairStage env attr (uar.made .auto)
  companionStage : main.qp.built env (main.args env attr (uar.made .auto)) = true →
    companion.PairStage env attr (uar.made .auto)

theorem HlQp.clearUar_perm (q : HlQp) :
    (q.clearUar.teardown ++ q.externalUar.toList).Perm q.teardown := by
  rw [HlQp.teardown_eq, HlQp.teardown_eq]
  simp only [HlQp.clearUar, Option.toList_none, List.append_nil, List.append_assoc]
  exact (List.perm_append_comm.append_left _).append_left _

/-- The companion gives back everything but the UAR, which goes with the main queue pair. -/
theorem groupTeardown_perm (q q' : HlQp) (qpg : Res) :
    (q'.clearUar.teardown ++ (q.clearUar.teardown ++ (q.externalUar.toList ++ [qpg]))).Perm
      (groupTeardown q q' qpg) := by
  unfold groupTeardown
  rw [← List.append_assoc q.clearUar.teardown, ← List.append_assoc]
  refine List.Perm.append_right [qpg] ?_
  exact (List.perm_append_comm).trans ((q.clearUar_perm).append_right _)

/-- **Where `doca_gpu_verbs_create_qp_group_hl` is balanced.** -/
theorem createQpGroupHl_balanced_iff (attr : QpInitAttrHl) (calloc : Bool) (uar : UarCalls)
    (main companion : HlCalls) (hm : w.misuse = false) :
    GroupBalanced env attr w (createQpGroupHl env attr calloc uar main companion w) ↔
      ((argsValid attr false && calloc) = true → GroupStage env attr uar main companion) := by
  unfold createQpGroupHl
  by_cases hargs : (argsValid attr false && calloc) = true
  swap
  · rw [Bool.not_eq_true] at hargs
    simp only [hargs, Bool.not_false, if_true]
    exact iff_of_true ⟨.refl w, rfl⟩ nofun
  simp only [hargs, Bool.not_true, Bool.false_eq_true, if_false, forall_const]
  have huar := createUar_owes (Owes.struct w) .auto uar
  obtain ⟨hmade, hustatus⟩ := createUar_made uar .auto (w.acquire .host [] true)
  have hsuccess := hustatus.2 (by simp [UarCalls.goesOn])
  generalize createUar .auto uar (w.acquire .host [] true) = muar at huar hmade hsuccess ⊢
  obtain ⟨status, out, w₁⟩ := muar
  obtain rfl : status = .success := hsuccess
  simp only at huar hmade ⊢
  have hgroup : GroupStage env attr uar main companion ↔
      (True ∧ (out.isSome = true → uar.destroy = true)) ∧ main.PairStage env attr out.isSome ∧
      (main.qp.built env (main.args env attr out.isSome) = true →
        companion.PairStage env attr out.isSome) := by
    rw [hmade, true_and]
    exact ⟨fun h => ⟨h.uarStage, h.mainStage, h.companionStage⟩, fun h => ⟨h.1, h.2.1, h.2.2⟩⟩
  rw [← hmade] at huar
  rw [hgroup]
  have hmain := createOnUar_outcome env attr main huar (by simp) out
  generalize createOnUar env attr out main w₁ = r at hmain ⊢
  obtain ⟨ending, q, w₂⟩ := r
  cases ending with
  | exitError =>
    obtain ⟨howes, hnot, hq⟩ := hmain
    rw [hnot]
    have hends := howes.exit (hq ▸ groupTeardown_perm q (HlQp.zero .validDbr) _)
    refine (hends.returned_iff hm).trans ?_
    simp
  | returned =>
    exact iff_of_false (hmain.1.not_returned hm) fun h => hmain.2 ⟨h.1, h.2.1⟩
  | built =>
    obtain ⟨howes, hbuilt, hq, x, hx⟩ := hmain
    rw [hbuilt]
    have hcompanion := createOnUar_outcome env attr companion howes
      (by simp) out
    simp only
    generalize createOnUar env attr out companion w₂ = r at hcompanion ⊢
    obtain ⟨ending, q', w₃⟩ := r
    cases ending with
    | exitError =>
      obtain ⟨howes', -, -⟩ := hcompanion
      have hends := howes'.exit (hq ▸ groupTeardown_perm q q' _)
      refine (hends.returned_iff hm).trans ?_
      simp [and_assoc]
    | returned =>
      refine iff_of_false (hcompanion.1.not_returned hm) fun h => hcompanion.2 ?_
      exact ⟨⟨h.1, h.2.1⟩, h.2.2 trivial⟩
    | built =>
      obtain ⟨howes', -, hq', x', hx'⟩ := hcompanion
      have hends := howes'.exit (hq ▸ groupTeardown_perm q q' _)
      have hret := (hends.returned_iff hm).trans
        (show _ ↔ (True ∧ (out.isSome = true → uar.destroy = true)) ∧
          main.PairStage env attr out.isSome ∧
          (True → companion.PairStage env attr out.isSome) by simp [and_assoc])
      refine ⟨fun h => hret.1 h.2, fun h => ⟨?_, hret.2 h⟩⟩
      have hg := (howes'.grown ⟨⟨h.1, h.2.1⟩, h.2.2 trivial⟩).1
      obtain ⟨hk, hdb⟩ := hx.keyed none hg fun r hr =>
        List.mem_append_right _ (List.mem_append_left _ hr)
      obtain ⟨-, hdb'⟩ := hx'.keyed none hg fun r hr => List.mem_append_left _ hr
      have hperm : q.clearUar.teardown.Perm x.all :=
        (hx.teardown_perm none hk hdb).trans (.of_eq (List.append_nil _))
      have hperm' : q'.clearUar.teardown.Perm x'.all :=
        (hx'.teardown_perm none hk hdb').trans (.of_eq (List.append_nil _))
      obtain ⟨-, r, hr, -⟩ := hx.qpParts.qp
      obtain rfl : out = some r := hq ▸ hr
      refine ⟨r, x, x', hx, hx', hq, hq', hg.perm ?_⟩
      have hall := hperm'.append (hperm.append_right [r, w.fresh .host [] true])
      refine hall.trans ?_
      rw [← List.append_assoc]
      exact List.perm_append_comm.append_right _

/-- **Where the creations are balanced**: every exit that is taken gives back what was acquired,
every failure on the way ends at `exit_error`, what has been built can be given back by its keys,
and no call that gives back fails. -/
theorem create_balanced_iff (env : Env) (attr : QpInitAttrHl) (calloc : Bool) (w : World)
    (hm : w.misuse = false) :
    (∀ c, SingleBalanced env attr w (createQpHl env attr calloc c w) ↔
      ((argsValid attr true && !attr.netDevNull && calloc) = true → c.SingleStage env attr)) ∧
    ∀ uar main companion,
      GroupBalanced env attr w (createQpGroupHl env attr calloc uar main companion w) ↔
        ((argsValid attr false && calloc) = true → GroupStage env attr uar main companion) :=
  ⟨fun c => createQpHl_balanced_iff attr calloc c hm,
    fun uar main companion => createQpGroupHl_balanced_iff attr calloc uar main companion hm⟩

/-- Calls that all succeed, except the export if asked for. -/
def HlCalls.wellBut (exportQp : Bool) : HlCalls where
  cq := ⟨true, .ok, true, true, true, ⟨none, true, true, true⟩, true, true, true, true, true⟩
  uar := ⟨true, true, true, true⟩
  qp := ⟨true, true, some true, .ok, true, ⟨none, true, true, true⟩, true, true, .ok,
    ⟨none, true, true, true⟩, true, true, true, true, true, true⟩
  exportQp := exportQp
  unexport := true

/-- A queue pair that rings its doorbells from the GPU. -/
def plainAttr : QpInitAttrHl := ⟨false, false, 64#16, .gpuSmDb, .validDbr, true, false⟩

/-- Device addresses that are the host addresses. -/
def plainEnv : Env := ⟨.default, false, true, true⟩

theorem singleStage_well : (HlCalls.wellBut true).SingleStage plainEnv plainAttr where
  cq := ⟨(CqCalls.clean_iff _ _).2 (by decide), by decide, by decide⟩
  uar := by decide
  qp _ _ := ⟨⟨fun h => absurd h (by decide), by decide, by decide, by decide, by decide, by decide,
    by decide, by decide, by decide⟩, by decide, by decide, by decide, by decide⟩

theorem singleBalanced_well : SingleBalanced plainEnv plainAttr .init
    (createQpHl plainEnv plainAttr true (HlCalls.wellBut true) .init) :=
  ((create_balanced_iff _ _ true .init rfl).1 _).2 fun _ => singleStage_well

/-- A failed export is left with a bare `return`. -/
theorem create_unbalanced :
    ¬ ∀ (env : Env) (attr : QpInitAttrHl) (calloc : Bool) (c : HlCalls),
      SingleBalanced env attr .init (createQpHl env attr calloc c .init) := by
  intro h
  have hstage := (createQpHl_balanced_iff _ _ _ rfl).1
    (h plainEnv plainAttr true (HlCalls.wellBut false)) (by decide)
  have hexport := (hstage.qp (by decide) (by decide)).exportQp (by decide)
  cases hexport

end Gpunetio.Lifecycle
