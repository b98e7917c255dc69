import Gpunetio.Host.Parts

/-!
# What a status says about the handle

A creating function agrees with its status if it returns success exactly where the handle it was
asked for is set to a new object with everything below it, and leaves no live handle on an error.

* `Agrees`, and what is a built object of each kind;
* `createUar_agrees`, `createGpuUmem_agrees`, `createCq_agrees`, `createQp_agrees`,
  `flatListCreate_agrees`: where each function agrees;
* **`agrees_iff`**, **`createUar_disagrees`**.
-/

namespace Gpunetio.Lifecycle

open Gpunetio.Lifecycle.World

variable {w : World} {env : Env}

/-- Success is returned exactly if an object is built, and on an error the handle is not live. -/
def Agrees {α : Type} (built live : α → World → Prop) (m : Made α) : Prop :=
  (m.status = .success ↔ built m.out m.world) ∧ (m.status = .error → ¬ live m.out m.world)

/-- A handle is set to a resource that is held. -/
def Live (out : Option Res) (w : World) : Prop := ∃ r ∈ out, r ∈ w.held

/-- The handle is set to a new resource of a kind that refers to `refs`. -/
def Fresh (w : World) (kind : ResKind) (refs : List ℕ) (out : Option Res) (w' : World) : Prop :=
  ∃ r ∈ out, r.kind = kind ∧ r.refs = refs ∧ r ∈ w'.held ∧ r ∉ w.held

/-- The handles are set to a new CQ, its umem and its buffer. -/
def CqFresh (env : Env) (uar : Option Res) (w : World) (out : CqOut) (w' : World) : Prop :=
  ∃ cq umem block, out = ⟨some cq, some umem, some (env.devPtr block)⟩ ∧
    CqParts uar cq umem block ∧ ∀ r ∈ [cq, umem, block], r ∈ w'.held ∧ r ∉ w.held

/-- The handles are set to a new QP, its umems and its buffers. -/
def QpFresh (env : Env) (a : QpArgs) (w : World) (out : QpOut) (w' : World) : Prop :=
  ∃ (h : NicHandler) (qp umem block umemDbr dbr dbrPtr : Res),
    out = ⟨some qp, some umem, some (env.devPtr block), some umemDbr, some dbrPtr, some h⟩ ∧
    QpParts a h qp umem block umemDbr dbr ∧ dbrPtr.block.id = dbr.id ∧
    ∀ r ∈ [qp, umem, block, umemDbr, dbr], r ∈ w'.held ∧ r ∉ w.held

/-! ## Agreement in general -/

section General

variable {α : Type} {built live : α → World → Prop} {out : α}

theorem agrees_success (hb : built out w) : Agrees built live ⟨.success, out, w⟩ :=
  ⟨iff_of_true rfl hb, nofun⟩

theorem agrees_error (hb : ¬ built out w) (hl : ¬ live out w) :
    Agrees built live ⟨.error, out, w⟩ :=
  ⟨iff_of_false nofun hb, fun _ => hl⟩

theorem not_agrees_success (hb : ¬ built out w) : ¬ Agrees built live ⟨.success, out, w⟩ :=
  fun h => hb (h.1.1 rfl)

end General

theorem not_live_none (w : World) : ¬ Live none w := by
  rintro ⟨r, hr, -⟩
  cases hr

theorem not_fresh_none {w' : World} {kind : ResKind} {refs : List ℕ} :
    ¬ Fresh w kind refs none w' := by
  rintro ⟨r, hr, -⟩
  cases hr

/-- What has grown by one resource. -/
theorem Fresh.of_grown {w' : World} {l : List Res} {r : Res} (h : w.Grown w' l) (hr : r ∈ l) :
    Fresh w r.kind r.refs (some r) w' :=
  ⟨r, rfl, rfl, rfl, (h.held r).2 (Or.inl hr), h.notMem hr⟩

/-! ## The five functions -/

theorem createUar_agrees (nicHandler : NicHandler) (c : UarCalls) (w : World) :
    Agrees (Fresh w .uar []) Live (createUar nicHandler c w) ↔
      nicHandler = .gpuSmBf ∨ c.ncDedicated = true ∨ c.nc = true := by
  have hnew := Fresh.of_grown ((Grown.refl w).acquire .uar [] c.destroy) (List.mem_cons_self ..)
  unfold createUar
  by_cases hbf : nicHandler = .gpuSmBf
  · rw [if_neg (not_not.2 hbf)]
    refine iff_of_true ?_ (Or.inl hbf)
    by_cases hcall : c.blueflame = true
    · rw [if_pos hcall]
      exact agrees_success hnew
    · rw [if_neg hcall]
      exact agrees_error not_fresh_none (not_live_none _)
  · rw [if_pos hbf]
    by_cases hcall : (c.ncDedicated || c.nc) = true
    · rw [if_pos hcall]
      exact iff_of_true (agrees_success hnew) (Or.inr (by simpa using hcall))
    · rw [if_neg hcall]
      refine iff_of_false (not_agrees_success not_fresh_none) ?_
      rintro (h | h)
      · exact hbf h
      · exact hcall (by simpa using h)

theorem createGpuUmem_agrees (mregType : MemRegType) (buf : Res) (c : UmemCalls) (w : World) :
    Agrees (Fresh w .umem [buf.id]) Live (createGpuUmem mregType buf c w) ↔ mregType ≠ .other := by
  cases hmakes : c.makes mregType with
  | true =>
    have hother : mregType ≠ .other := by
      rintro rfl
      cases hmakes
    rw [createGpuUmem_makes hmakes]
    refine iff_of_true (agrees_success ?_) hother
    exact Fresh.of_grown (((Grown.refl w).acquire .umem [buf.id] c.destroy).addFds _)
      (List.mem_cons_self ..)
  | false =>
    rw [createGpuUmem_fails hmakes]
    by_cases hother : mregType = .other
    · rw [if_pos hother]
      exact iff_of_false (not_agrees_success not_fresh_none) (not_not.2 hother)
    · rw [if_neg hother]
      exact iff_of_true (agrees_error not_fresh_none (not_live_none _)) hother

/-- A failed copy leaves the status of the allocation. -/
theorem createCq_agrees (env : Env) (uar : Option Res) (c : CqCalls) (w : World) :
    Agrees (CqFresh env uar w) (fun out => Live out.verbsCq) (createCq env uar c w) ↔
      c.copyFails env = false := by
  cases hb : c.built env with
  | true =>
    obtain ⟨cq, umem, block, w', heq, hw, -, hparts, -⟩ := createCq_built uar w hb
    have hcopy : c.copyFails env = false := by
      have hreg : c.registers env = true := by
        simp only [CqCalls.built, CqCalls.creates, Bool.and_eq_true] at hb
        exact hb.1.1.1.1
      simp only [CqCalls.registers, Bool.and_eq_true] at hreg
      simp [CqCalls.copyFails, hreg.2]
    rw [heq]
    refine iff_of_true (agrees_success ⟨cq, umem, block, rfl, hparts, fun r hr => ?_⟩) hcopy
    exact ⟨(hw.held r).2 (Or.inl hr), hw.notMem hr⟩
  | false =>
    have hfail := createCq_failed uar w hb
    have hnot : ¬ CqFresh env uar w (createCq env uar c w).out (createCq env uar c w).world := by
      rintro ⟨cq, umem, block, hout, -⟩
      have := hfail.verbsCq
      rw [hout] at this
      cases this
    have hlive : ¬ Live (createCq env uar c w).out.verbsCq (createCq env uar c w).world := by
      rw [hfail.verbsCq]
      exact not_live_none _
    rw [← Bool.not_eq_true, ← hfail.status]
    constructor
    · exact fun h hs => hnot (h.1.1 hs)
    · exact fun h => ⟨iff_of_false h hnot, fun _ => hlive⟩

/-- A failed `calloc` of the doorbell record leaves the status of the call before. -/
theorem createQp_agrees (env : Env) (a : QpArgs) (c : QpCalls) (w : World) :
    Agrees (QpFresh env a w) (fun out => Live out.verbsQp) (createQp env a c w) ↔
      c.callocFails env a = false := by
  cases hb : c.built env a with
  | true =>
    obtain ⟨h, qp, umem, block, umemDbr, dbr, dbrPtr, w', hh, heq, hw, -, -, hid, hparts, -⟩ :=
      createQp_built env a c w hb
    have hcalloc : c.callocFails env a = false := QpCalls.callocFails_of_built hb
    rw [heq]
    refine iff_of_true (agrees_success
      ⟨h, qp, umem, block, umemDbr, dbr, dbrPtr, rfl, hparts, hid.block, fun r hr => ?_⟩) hcalloc
    exact ⟨(hw.held r).2 (Or.inl hr), hw.notMem hr⟩
  | false =>
    have hfail := createQp_failed env a c w hb
    have hnot : ¬ QpFresh env a w (createQp env a c w).out (createQp env a c w).world := by
      rintro ⟨h, qp, umem, block, umemDbr, dbr, dbrPtr, hout, -⟩
      rw [hfail.out] at hout
      cases hout
    have hlive : ¬ Live (createQp env a c w).out.verbsQp (createQp env a c w).world := by
      rw [hfail.out]
      exact not_live_none _
    rw [← Bool.not_eq_true, ← hfail.status]
    constructor
    · exact fun h hs => hnot (h.1.1 hs)
    · exact fun h => ⟨iff_of_false h hnot, fun _ => hlive⟩

theorem flatListCreate_agrees (nullArg : Bool) (c : FlatCalls) (w : World) :
    Agrees (Fresh w .devMem []) Live (flatListCreate nullArg c w) ↔
      nullArg = true ∨ c.memcpy = [] ∨ c.cudaMalloc = false ∨ ∀ ok ∈ c.memcpy, ok = true := by
  have herr : Agrees (Fresh w .devMem []) Live ⟨.error, none, w⟩ :=
    agrees_error not_fresh_none (not_live_none _)
  unfold flatListCreate
  by_cases harg : (nullArg || c.memcpy.isEmpty) = true
  · rw [if_pos harg]
    refine iff_of_true herr ?_
    rw [Bool.or_eq_true, List.isEmpty_iff] at harg
    exact harg.imp_right Or.inl
  rw [if_neg harg]
  cases hmalloc : c.cudaMalloc with
  | false => exact iff_of_true herr (by simp)
  | true =>
    simp only [Bool.not_true, Bool.false_eq_true, if_false]
    by_cases hcopy : c.memcpy.all id = true
    · rw [if_pos hcopy]
      refine iff_of_true (agrees_success ?_) (by simpa using Or.inr (Or.inr hcopy))
      exact Fresh.of_grown ((Grown.refl w).acquire .devMem [] true) (List.mem_cons_self ..)
    · rw [if_neg hcopy]
      refine iff_of_false (not_agrees_success not_fresh_none) ?_
      rw [Bool.or_eq_true, List.isEmpty_iff, not_or] at harg
      rintro (h | h | h | h)
      · exact harg.1 h
      · exact harg.2 h
      · cases h
      · exact hcopy (List.all_eq_true.2 h)

/-- **Where the status says what became of the handle**: `create_uar` unless it returns success
with no non-cached UAR, `create_gpu_umem` for a type of registration that it knows, `create_cq`
unless the copy into the ring fails, `create_qp` unless `calloc` of the doorbell record does, the
flat list unless a copy does. -/
theorem agrees_iff (w : World) :
    (∀ nicHandler c, Agrees (Fresh w .uar []) Live (createUar nicHandler c w) ↔
      nicHandler = .gpuSmBf ∨ c.ncDedicated = true ∨ c.nc = true) ∧
    (∀ mregType buf c, Agrees (Fresh w .umem [buf.id]) Live (createGpuUmem mregType buf c w) ↔
      mregType ≠ .other) ∧
    (∀ env uar c, Agrees (CqFresh env uar w) (fun out => Live out.verbsCq) (createCq env uar c w) ↔
      c.copyFails env = false) ∧
    (∀ env a c, Agrees (QpFresh env a w) (fun out => Live out.verbsQp) (createQp env a c w) ↔
      c.callocFails env a = false) ∧
    ∀ nullArg c, Agrees (Fresh w .devMem []) Live (flatListCreate nullArg c w) ↔
      nullArg = true ∨ c.memcpy = [] ∨ c.cudaMalloc = false ∨ ∀ ok ∈ c.memcpy, ok = true :=
  ⟨fun _ _ => createUar_agrees .., fun _ _ _ => createGpuUmem_agrees ..,
    fun _ _ _ => createCq_agrees .., fun _ _ _ => createQp_agrees ..,
    fun _ _ => flatListCreate_agrees ..⟩

/-- Without a non-cached UAR `create_uar` returns success and no handle. -/
theorem createUar_disagrees :
    ¬ ∀ (nicHandler : NicHandler) (c : UarCalls) (w : World),
      Agrees (Fresh w .uar []) Live (createUar nicHandler c w) := by
  intro h
  exact not_agrees_success not_fresh_none (h .auto ⟨false, false, false, true⟩ .init)

end Gpunetio.Lifecycle
