import Gpunetio.Host.Balance

/-!
# The order of the teardown

* `createSingle_built`, `createOnUar_built`: a queue pair that is built holds all its parts;
* `Kept`: a later world that still holds what a creation acquired, to which nothing else refers;
* `Piece`, **`Kept.early_iff`**: parts that refer to later ones go in order exactly if with each
  part that goes everything goes that refers to it;
* `HlCalls.Orderly`: the condition on the calls; **`destroyQpHl_early_iff`**: a single queue pair,
  whose CQ does not use its UAR;
* **`destroyQpGroupHl_early_iff`**: the UAR of a group goes before the CQ of the main queue pair,
  which is created on it;
* **`destroy_order`**.
-/

namespace Gpunetio.Lifecycle

open Teardown Gpunetio.Lifecycle.World
open HighLevel (QpInitAttrHl)

variable {w w' w'' : World} {env : Env} {attr : QpInitAttrHl} {c : HlCalls} {q q' : HlQp}
  {rs : List Res}

/-! ## Queue pairs that are built -/

theorem createAndExport_inv (uarCq : Option Res) (cqUmem cqBlock : Res)
    (h : createAndExport env attr c q w = (.built, q', w'))
    (hcq : ∀ cq ∈ q.cqSq.verbsCq, q.cqSq = ⟨cq, cqUmem, env.devPtr cqBlock⟩ ∧
      CqParts uarCq cq cqUmem cqBlock) :
    ∃ x, HlBuilt env attr uarCq q' x ∧ HlGoes c (q'.args attr) q'.nicHandler x ∧
      q'.externalUar = q.externalUar ∧ w.Grown w' x.ofQp ∧
      ∃ cq, q.cqSq.verbsCq = some cq ∧ x.cq = cq ∧ x.cqUmem = cqUmem ∧ x.cqBlock = cqBlock := by
  cases hb : c.qp.built env (q.args attr) with
  | true =>
    obtain ⟨x, out, nic, w₁, w₂, -, heq, hx, hgoes, hg, -, hparts⟩ :=
      createAndExport_success (w := w) hb hcq
    rw [heq] at h
    split_ifs at h
    · cases h
      exact ⟨x, hx, hgoes, rfl, hg, hparts⟩
    · cases h
  | false =>
    rw [createAndExport_failed attr c q w hb] at h
    split_ifs at h <;> cases h

theorem createOnUar_built {uar : Option Res} (h : createOnUar env attr uar c w = (.built, q, w')) :
    ∃ x, HlBuilt env attr uar q x ∧ HlGoes c (q.args attr) q.nicHandler x ∧
      CqGoes c.cq x.cq x.cqUmem x.cqBlock ∧ q.externalUar = uar ∧ w.Grown w' x.all := by
  unfold createOnUar at h
  cases hb : c.cq.built env with
  | true =>
    obtain ⟨cq, umem, block, w₁, heq, hg₁, -, hparts, hcqGoes⟩ := createCq_built uar w hb
    simp only [heq] at h
    obtain ⟨x, hx, hgoes, huar, hg, cq', hcq, rfl, rfl, rfl⟩ := createAndExport_inv uar _ _ h
      fun r hr => ⟨Option.some.inj hr ▸ rfl, Option.some.inj hr ▸ hparts⟩
    obtain rfl := Option.some.inj hcq
    exact ⟨x, hx, hgoes, hcqGoes, huar, hg₁.append hg⟩
  | false =>
    have hnone := (createCq_failed uar w hb).verbsCq
    cases hs : (createCq env uar c.cq w).status with
    | error =>
      simp only [hs] at h
      cases h
    | success =>
      simp only [hs] at h
      obtain ⟨x, -, -, -, -, cq, hcq, -⟩ := createAndExport_inv uar .stray .stray h fun r hr => by
          rw [hnone] at hr
          cases hr
      rw [hnone] at hcq
      cases hcq

theorem createUar_some {nicHandler : NicHandler} {u : UarCalls} {uar : Res}
    (h : (createUar nicHandler u w).out = some uar) : uar = w.fresh .uar [] u.destroy ∧
      (createUar nicHandler u w).world = w.acquire .uar [] u.destroy := by
  unfold createUar at h ⊢
  split_ifs at h ⊢
  · exact ⟨(Option.some.inj h).symm, rfl⟩
  · exact ⟨(Option.some.inj h).symm, rfl⟩

theorem createSingle_built (h : createSingle env attr c w = (.built, q, w')) :
    ∃ x uar, HlBuilt env attr none q x ∧ HlGoes c (q.args attr) q.nicHandler x ∧
      CqGoes c.cq x.cq x.cqUmem x.cqBlock ∧ q.externalUar = some uar ∧
      (uar.refs = [] ∧ uar.goes = c.uar.destroy) ∧
      w.Grown w' (x.ofQp ++ uar :: [x.cq, x.cqUmem, x.cqBlock]) := by
  unfold createSingle at h
  cases hb : c.cq.built env with
  | true =>
    obtain ⟨cq, umem, block, w₁, heq, hg₁, -, hparts, hcqGoes⟩ := createCq_built none w hb
    simp only [heq] at h
    cases hs : (createUar attr.nicHandler c.uar w₁).status with
    | error =>
      simp only [hs] at h
      cases h
    | success =>
      simp only [hs] at h
      obtain ⟨x, hx, hgoes, huar, hg, cq', hcq, rfl, rfl, rfl⟩ := createAndExport_inv none _ _ h
        fun r hr => ⟨Option.some.inj hr ▸ rfl, Option.some.inj hr ▸ hparts⟩
      obtain rfl := Option.some.inj hcq
      obtain ⟨-, uar, hmem, -⟩ := hx.qpParts.qp
      have hsome : q.externalUar = some uar := hmem
      obtain ⟨rfl, hworld⟩ := createUar_some (huar ▸ hsome)
      rw [hworld] at hg
      exact ⟨x, _, hx, hgoes, hcqGoes, hsome, ⟨rfl, rfl⟩,
        (hg₁.acquire .uar [] c.uar.destroy).append hg⟩
  | false =>
    have hnone := (createCq_failed none w hb).verbsCq
    cases hs : (createCq env none c.cq w).status with
    | error =>
      simp only [hs] at h
      cases h
    | success =>
      simp only [hs] at h
      split at h
      · cases h
      · obtain ⟨x, -, -, -, -, cq, hcq, -⟩ := createAndExport_inv none .stray .stray h
          fun r hr => by
            rw [hnone] at hr
            cases hr
        rw [hnone] at hcq
        cases hcq

/-! ## Tearing down -/

/-- A later world that still holds what has been acquired between `w` and `w'`, and where nothing
else refers to it. -/
structure Kept (w w' w'' : World) : Prop where
  held : ∀ r ∈ w'.held, r ∉ w.held → r ∈ w''.held
  closed : ∀ y ∈ w''.held, ∀ r ∈ w'.held, r ∉ w.held → y.Refers r → y ∈ w'.held ∧ y ∉ w.held

theorem Kept.mem (hk : Kept w w' w'') {l : List Res} {r : Res} (hg : w.Grown w' l) (hr : r ∈ l) :
    r ∈ w''.held := hk.held r ((hg.held r).2 (Or.inl hr)) (hg.notMem hr)

namespace World

/-- **Giving back in order**, where some calls fail. -/
theorem releaseAll_early_iff (he : w.early = false)
    (hord : rs.Pairwise fun a b => a ∈ w.held → a.goes = true → ¬ b.Refers a)
    (hself : ∀ a ∈ rs, a ∈ w.held → a.goes = true → ¬ a.Refers a) :
    (w.releaseAll rs).early = false ↔ ∀ x ∈ w.held, ∀ a ∈ rs, a ∈ w.held → a.goes = true →
      x.Refers a → x ∈ rs ∧ x.goes = true := by
  have hgoes : ∀ r ∈ w.held, (¬ w.Stuck r ↔ r.goes = true) := by
    intro r hr
    simp [Stuck, hr]
  rw [early, site_releaseAll, Site.releaseAll_early_iff Res.Refers he w.nodup]
  · refine forall₂_congr fun x hx => forall_congr' fun a => ?_
    simp only [List.mem_filter, decide_eq_true_eq]
    constructor
    · intro h ha hheld hgo href
      obtain ⟨hmem, hnot⟩ := h ⟨ha, (hgoes a hheld).2 hgo⟩ hheld href
      exact ⟨hmem, (hgoes x hx).1 hnot⟩
    · rintro h ⟨ha, hnot⟩ hheld href
      obtain ⟨hmem, hgo⟩ := h ha hheld ((hgoes a hheld).1 hnot) href
      exact ⟨hmem, (hgoes x hx).2 hgo⟩
  · refine (List.Pairwise.filter _ hord).imp_of_mem fun {a b} ha _ h hheld => h hheld ?_
    exact (hgoes a hheld).1 (by simpa using (List.mem_filter.1 ha).2)
  · intro a ha hheld
    have hmem := List.mem_filter.1 ha
    exact hself a hmem.1 hheld ((hgoes a hheld).1 (by simpa using hmem.2))

/-- A resource goes early if one that comes later in the list still refers to it. -/
theorem early_of_refers {r x : Res} {pre post : List Res} (hr : r ∈ w.held) (hgo : r.goes = true)
    (hx : x ∈ w.held) (hrpre : r ∉ pre) (hxpre : x ∉ pre) (h : x.Refers r) :
    (w.releaseAll (pre ++ r :: post)).early = true := by
  have hfilter : (pre ++ r :: post).filter (fun r => ¬ w.Stuck r) =
      pre.filter (fun r => ¬ w.Stuck r) ++ r :: post.filter fun r => ¬ w.Stuck r := by
    rw [List.filter_append, List.filter_cons_of_pos (by simp [Stuck, hgo])]
  rw [early, site_releaseAll, hfilter]
  exact Site.early_of_refers Res.Refers w.nodup hr hx (fun hmem => hrpre (List.mem_filter.1 hmem).1)
    (fun hmem => hxpre (List.mem_filter.1 hmem).1) h

end World

/-- A part of what is torn down, with what is given back for it: itself, or what no allocator has
given out; and with the parts that it refers to. -/
structure Piece where
  part : Res
  back : Res
  refs : List Res

/-- The pieces of what has been acquired between `w` and `w'`. -/
structure Pieces (w w' : World) (ps : List Piece) : Prop where
  grown : w.Grown w' (ps.map (·.part))
  back : ∀ p ∈ ps, p.back = p.part ∨ p.back = .stray
  refs : ∀ p ∈ ps, p.part.refs = p.refs.map (·.id)
  mem : ∀ p ∈ ps, ∀ r ∈ p.refs, r ∈ ps.map (·.part)

/-- A resource is given back, and the call succeeds. -/
def Gone (rs : List Res) (r : Res) : Prop := r ∈ rs ∧ r.goes = true

/-- Each piece refers only to later ones, and to what stays. -/
def Forward (stays : Res → Prop) : List Piece → Prop
  | [] => True
  | p :: ps => (∀ r ∈ p.refs, r ∈ ps.map (·.part) ∨ stays r) ∧ Forward stays ps

theorem Forward.refs_mem {stays : Res → Prop} {ps : List Piece} (h : Forward stays ps) {p : Piece}
    (hp : p ∈ ps) : ∀ r ∈ p.refs, r ∈ ps.map (·.part) ∨ stays r := by
  induction ps with
  | nil => cases hp
  | cons a ps ih =>
    intro r hr
    obtain rfl | hp := List.mem_cons.1 hp
    · exact (h.1 r hr).imp_left (List.mem_cons_of_mem _)
    · exact (ih h.2 hp r hr).imp_left (List.mem_cons_of_mem _)

theorem Forward.mono {stays stays' : Res → Prop} {ps : List Piece} (h : Forward stays ps)
    (hs : ∀ r, stays r → stays' r) : Forward stays' ps := by
  induction ps with
  | nil => trivial
  | cons p ps ih => exact ⟨fun r hr => (h.1 r hr).imp_right (hs r), ih h.2⟩

/-- What the first pieces refer to may be among the others. -/
theorem Forward.append {stays : Res → Prop} {ps ps' : List Piece}
    (h : Forward (fun r => r ∈ ps'.map (·.part) ∨ stays r) ps) (h' : Forward stays ps') :
    Forward stays (ps ++ ps') := by
  induction ps with
  | nil => exact h'
  | cons p ps ih =>
    refine ⟨fun r hr => ?_, ih h.2⟩
    show r ∈ (ps ++ ps').map (·.part) ∨ stays r
    rw [List.map_append, List.mem_append, or_assoc]
    exact h.1 r hr

theorem Forward.pairwise {stays : Res → Prop} {ps : List Piece} (h : Forward stays ps)
    (hn : (ps.map (·.part)).Nodup) : ps.Pairwise fun p q => ¬ stays p.part → p.part ∉ q.refs := by
  induction ps with
  | nil => exact List.Pairwise.nil
  | cons p ps ih =>
    rw [List.map_cons, List.nodup_cons] at hn
    refine List.pairwise_cons.2 ⟨fun q hq hgo hmem => ?_, ih h.2 hn.2⟩
    exact (h.2.refs_mem hq _ hmem).elim hn.1 hgo

theorem Forward.not_self {stays : Res → Prop} {ps : List Piece} (h : Forward stays ps)
    (hn : (ps.map (·.part)).Nodup) {p : Piece} (hp : p ∈ ps) (hgo : ¬ stays p.part) :
    p.part ∉ p.refs := by
  induction ps with
  | nil => cases hp
  | cons q ps ih =>
    rw [List.map_cons, List.nodup_cons] at hn
    obtain rfl | hp := List.mem_cons.1 hp
    · exact fun hmem => (h.1 _ hmem).elim hn.1 hgo
    · exact ih h.2 hn.2 hp

namespace Pieces

variable {ps : List Piece} {p p' : Piece}

/-- A piece refers to another by its identity. -/
theorem refers_iff (h : Pieces w w' ps) (hp : p ∈ ps) (hp' : p' ∈ ps) :
    p.part.Refers p'.part ↔ p'.part ∈ p.refs := by
  rw [Res.Refers, h.refs p hp]
  constructor
  · intro hmem
    obtain ⟨r, hr, hid⟩ := List.mem_map.1 hmem
    have hsame := List.inj_on_of_nodup_map h.grown.ids (h.mem p hp r hr)
      (List.mem_map_of_mem hp') hid
    exact hsame ▸ hr
  · exact fun hmem => List.mem_map_of_mem hmem

/-- What is given back for a piece and held is the piece. -/
theorem back_eq (h : Pieces w w' ps) (hp : p ∈ ps) (hmem : p.back ∈ w''.held) :
    p.back = p.part := by
  obtain heq | heq := h.back p hp
  · exact heq
  · exact absurd (heq ▸ hmem) stray_notMem

/-- Which pieces are gone. -/
theorem gone_iff (h : Pieces w w' ps) (hp : p ∈ ps) :
    Gone (ps.map (·.back)) p.part ↔ p.back = p.part ∧ p.part.goes = true := by
  refine and_congr_left fun _ => ⟨fun hmem => ?_, fun heq => heq ▸ List.mem_map_of_mem hp⟩
  obtain ⟨p', hp', hback⟩ := List.mem_map.1 hmem
  have hheld : p'.back ∈ w'.held :=
    hback ▸ (h.grown.held _).2 (Or.inl (List.mem_map_of_mem hp))
  have hsame : p' = p := List.inj_on_of_nodup_map h.grown.nodup hp' hp
    ((h.back_eq hp' hheld).symm.trans hback)
  exact hsame ▸ h.back_eq hp' hheld

end Pieces

/-- **Where pieces are given back in order**: with each that goes everything goes that refers to it.
-/
theorem Kept.early_iff (hk : Kept w w' w'') (he : w''.early = false) {ps : List Piece}
    (h : Pieces w w' ps) (hf : Forward (fun r => ¬ Gone (ps.map (·.back)) r) ps) :
    (w''.releaseAll (ps.map (·.back))).early = false ↔
      ∀ p ∈ ps, ∀ r ∈ p.refs, Gone (ps.map (·.back)) r → Gone (ps.map (·.back)) p.part := by
  have hheld : ∀ p ∈ ps, p.part ∈ w''.held :=
    fun p hp => hk.mem h.grown (List.mem_map_of_mem hp)
  have hgone : ∀ p ∈ ps, p.back ∈ w''.held → p.back.goes = true →
      Gone (ps.map (·.back)) p.part := by
    intro p hp hmem hgo
    rw [h.gone_iff hp]
    exact ⟨h.back_eq hp hmem, h.back_eq hp hmem ▸ hgo⟩
  rw [World.releaseAll_early_iff he]
  · constructor
    · intro hall p hp r hr hgo
      obtain ⟨q, hq, rfl⟩ := List.mem_map.1 (h.mem p hp r hr)
      exact hall _ (hheld p hp) _ hgo.1 (hheld q hq) hgo.2 ((h.refers_iff hp hq).2 hr)
    · intro hall x hx a ha hmem hgo href
      obtain ⟨q, hq, rfl⟩ := List.mem_map.1 ha
      have hqgone := hgone q hq hmem hgo
      rw [h.back_eq hq hmem] at href
      have hpart := List.mem_map_of_mem (f := (·.part)) hq
      obtain ⟨hx', hxw⟩ := hk.closed x hx q.part ((h.grown.held _).2 (Or.inl hpart))
        (h.grown.notMem hpart) href
      obtain hxl | hold := (h.grown.held x).1 hx'
      · obtain ⟨p, hp, rfl⟩ := List.mem_map.1 hxl
        exact hall p hp _ ((h.refers_iff hp hq).1 href) hqgone
      · exact absurd hold hxw
  · have hord := hf.pairwise h.grown.nodup
    refine List.pairwise_map.2 (hord.imp_of_mem fun {p q} hp hq hnot hmem hgo href => ?_)
    have hpgone := hgone p hp hmem hgo
    rw [h.back_eq hp hmem] at href
    obtain heq | heq := h.back q hq
    · rw [heq] at href
      exact hnot (not_not.2 hpgone) ((h.refers_iff hq hp).1 href)
    · rw [heq] at href
      cases href
  · intro a ha hmem hgo href
    obtain ⟨p, hp, rfl⟩ := List.mem_map.1 ha
    have hpgone := hgone p hp hmem hgo
    rw [h.back_eq hp hmem] at href
    exact hf.not_self h.grown.nodup hp (not_not.2 hpgone) ((h.refers_iff hp hp).1 href)

/-! ## The pieces of a queue pair -/

/-- The pieces that are made with the QP, as they are torn down. -/
def HlParts.piecesQp (x : HlParts) (env : Env) (q : HlQp) (uar : Res) : List Piece :=
  [⟨x.sqDb, if env.keyedDb q.nicHandler then x.sqDb else .stray,
      if q.nicHandler = .cpuProxy then [] else [uar]⟩,
    ⟨x.gverbs, x.gverbs, [x.qp, x.cq]⟩,
    ⟨x.qp, x.qp, [uar, x.umem, x.umemDbr, x.cq]⟩,
    ⟨x.umem, x.umem, [x.block]⟩,
    ⟨x.block, if env.Keyed then x.block else .stray, []⟩,
    ⟨x.umemDbr, x.umemDbr, [x.dbr]⟩,
    ⟨x.dbr, if env.Keyed ∨ dbrOnHost q.nicHandler q.sendDbrModeExt = true then x.dbr else .stray,
      []⟩]

/-- The pieces that are made with the CQ, which uses the UAR of a group. -/
def HlParts.piecesCq (x : HlParts) (env : Env) (uarCq : Option Res) : List Piece :=
  [⟨x.cq, x.cq, x.cqUmem :: uarCq.toList⟩,
    ⟨x.cqUmem, x.cqUmem, [x.cqBlock]⟩,
    ⟨x.cqBlock, if env.Keyed then x.cqBlock else .stray, []⟩]

section Pair

variable {x : HlParts} {uarCq : Option Res} {uar : Res} {G : Res → Prop}

theorem HlParts.pieces_back (x : HlParts) (env : Env) (q : HlQp) (uar : Res) (uarCq : Option Res) :
    ∀ p ∈ x.piecesQp env q uar ++ x.piecesCq env uarCq, p.back = p.part ∨ p.back = .stray := by
  have hite : ∀ (P : Prop) [Decidable P] (r : Res),
      (if P then r else .stray) = r ∨ (if P then r else .stray) = .stray :=
    fun P _ r => ite_eq_or_eq P r .stray
  simp only [HlParts.piecesQp, HlParts.piecesCq, List.forall_mem_append, List.forall_mem_cons,
    hite, true_or, true_and]
  exact ⟨nofun, nofun⟩

theorem HlBuilt.pieces_refs (h : HlBuilt env attr uarCq q x) (huar : q.externalUar = some uar) :
    ∀ p ∈ x.piecesQp env q uar ++ x.piecesCq env uarCq, p.part.refs = p.refs.map (·.id) := by
  obtain ⟨-, r, hr, cq, hcq, hqp⟩ := h.qpParts.qp
  have hr' : q.externalUar = some r := hr
  have hcq' : q.cqSq.verbsCq = some cq := hcq
  rw [h.cqSq] at hcq'
  cases huar.symm.trans hr'
  cases hcq'
  have hsqDb := h.sqDb.refs
  have hcqRefs := h.cqParts.cq.2
  rw [huar] at hsqDb
  simp only [HlParts.piecesQp, HlParts.piecesCq, List.forall_mem_append, List.forall_mem_cons]
  refine ⟨⟨?_, h.gverbs.2, hqp, h.qpParts.umem.2, h.qpParts.block.2, h.qpParts.umemDbr.2,
    h.qpParts.dbr.2, nofun⟩, ?_, h.cqParts.umem.2, h.cqParts.block.2, nofun⟩
  · rw [hsqDb]
    split_ifs <;> rfl
  · rw [hcqRefs]
    rfl

/-- What the teardown gives back, on a UAR or with the handle of it cleared. -/
theorem HlBuilt.teardown_pieces (h : HlBuilt env attr uarCq q x) (o : Option Res) (uar : Res) :
    { q with externalUar := o }.teardown = (x.piecesQp env q uar).map (·.back) ++ o.toList ++
      (x.piecesCq env uarCq).map (·.back) := h.teardown o

/-- The condition under which the teardown of a queue pair is in order: of two parts one of which
refers to the other, the one referred to goes only with the other. -/
structure HlCalls.Orderly (c : HlCalls) (env : Env) (q : HlQp) (uarGoes : Bool) : Prop where
  sqDb : uarGoes = true → q.nicHandler ≠ .cpuProxy →
    env.uarPointerOnDevice = true ∧ c.unexport = true
  qp : uarGoes = true ∨ c.qp.umem.destroy = true ∨ c.qp.umemDbr.destroy = true ∨
    c.cq.destroy = true → c.qp.destroy = true
  umem : env.Keyed ∧ c.qp.memFree = true → c.qp.umem.destroy = true
  umemDbr : dbrOnHost q.nicHandler q.sendDbrModeExt = true ∨ env.Keyed ∧ c.qp.memFreeDbr = true →
    c.qp.umemDbr.destroy = true
  cq : c.cq.umem.destroy = true → c.cq.destroy = true
  cqUmem : env.Keyed ∧ c.cq.memFree = true → c.cq.umem.destroy = true

/-- Which parts of a queue pair are gone. -/
structure PairGone (c : HlCalls) (env : Env) (q : HlQp) (x : HlParts) (G : Res → Prop) : Prop where
  sqDb : G x.sqDb ↔ env.keyedDb q.nicHandler = true ∧ c.unexport = true
  gverbs : G x.gverbs
  qp : G x.qp ↔ c.qp.destroy = true
  umem : G x.umem ↔ c.qp.umem.destroy = true
  block : G x.block ↔ env.Keyed ∧ c.qp.memFree = true
  umemDbr : G x.umemDbr ↔ c.qp.umemDbr.destroy = true
  dbr : G x.dbr ↔
    dbrOnHost q.nicHandler q.sendDbrModeExt = true ∨ env.Keyed ∧ c.qp.memFreeDbr = true
  cq : G x.cq ↔ c.cq.destroy = true
  cqUmem : G x.cqUmem ↔ c.cq.umem.destroy = true
  cqBlock : G x.cqBlock ↔ env.Keyed ∧ c.cq.memFree = true

theorem HlParts.forward_piecesQp (x : HlParts) (env : Env) (q : HlQp) (uar : Res) :
    Forward (fun r => r = uar ∨ r = x.cq) (x.piecesQp env q uar) := by
  unfold piecesQp
  split_ifs <;> simp [Forward]

theorem HlParts.forward_piecesCq (x : HlParts) (env : Env) (uarCq : Option Res) :
    Forward (· ∈ uarCq) (x.piecesCq env uarCq) := by
  simp +contextual [piecesCq, Forward]

variable (uarCq) in
theorem PairGone.orderly_iff {uarGoes : Bool} (h : PairGone c env q x G)
    (huar : G uar ↔ uarGoes = true) (hcq : ∀ r ∈ uarCq, ¬ G r) :
    (∀ p ∈ x.piecesQp env q uar ++ x.piecesCq env uarCq, ∀ r ∈ p.refs, G r → G p.part) ↔
      c.Orderly env q uarGoes := by
  have hnot : ∀ r ∈ uarCq.toList, G r → c.cq.destroy = true :=
    fun r hr hG => absurd hG (hcq r (Option.mem_toList.1 hr))
  have hdb : (∀ r ∈ (if q.nicHandler = .cpuProxy then [] else [uar]), G r → G x.sqDb) ↔
      (uarGoes = true → q.nicHandler ≠ .cpuProxy →
        env.uarPointerOnDevice = true ∧ c.unexport = true) := by
    rw [h.sqDb]
    unfold Env.keyedDb
    by_cases hproxy : q.nicHandler = .cpuProxy <;> simp [hproxy, huar]
  simp only [HlParts.piecesQp, HlParts.piecesCq, List.forall_mem_append, List.forall_mem_cons, hdb,
    h.gverbs, h.qp, h.umem, h.block, h.umemDbr, h.dbr, h.cq, h.cqUmem, h.cqBlock, huar]
  constructor
  · rintro ⟨⟨h1, -, ⟨h2, h3, h4, h5, -⟩, ⟨h6, -⟩, -, ⟨h7, -⟩, -⟩, ⟨h8, -⟩, ⟨h9, -⟩, -⟩
    refine ⟨h1, ?_, h6, h7, h8, h9⟩
    rintro (h | h | h | h)
    · exact h2 h
    · exact h3 h
    · exact h4 h
    · exact h5 h
  · intro ho
    refine ⟨⟨ho.sqDb, ⟨fun _ => trivial, fun _ => trivial, nofun⟩, ⟨fun h => ho.qp (.inl h),
      fun h => ho.qp (.inr (.inl h)), fun h => ho.qp (.inr (.inr (.inl h))),
      fun h => ho.qp (.inr (.inr (.inr h))), nofun⟩, ⟨ho.umem, nofun⟩, nofun, ⟨ho.umemDbr, nofun⟩,
      nofun, nofun⟩, ⟨ho.cq, hnot⟩, ⟨ho.cqUmem, nofun⟩, nofun, nofun⟩

/-- A piece that is given back by its key only. -/
theorem Pieces.gone_keyed {ps : List Piece} (h : Pieces w w' ps) {part : Res} {refs : List Res}
    {P : Prop} [Decidable P] (hp : ⟨part, if P then part else .stray, refs⟩ ∈ ps) :
    Gone (ps.map (·.back)) part ↔ P ∧ part.goes = true := by
  have hne : part ≠ .stray := by
    rintro rfl
    exact absurd (h.grown.fresh _ (List.mem_map_of_mem hp)) (not_le.2 w.pos)
  rw [h.gone_iff hp]
  by_cases hP : P
  · simp [hP]
  · simp [hP, hne.symm]

theorem Pieces.gone_self {ps : List Piece} (h : Pieces w w' ps) {part : Res} {refs : List Res}
    (hp : ⟨part, part, refs⟩ ∈ ps) : Gone (ps.map (·.back)) part ↔ part.goes = true :=
  (h.gone_iff hp).trans (and_iff_right rfl)

theorem Pieces.pairGone {ps : List Piece} (h : Pieces w w' ps)
    (hsub : ∀ p ∈ x.piecesQp env q uar ++ x.piecesCq env uarCq, p ∈ ps)
    (hgoes : HlGoes c (q.args attr) q.nicHandler x) (hcq : CqGoes c.cq x.cq x.cqUmem x.cqBlock) :
    PairGone c env q x (Gone (ps.map (·.back))) := by
  simp only [HlParts.piecesQp, HlParts.piecesCq, List.forall_mem_append, List.forall_mem_cons]
    at hsub
  obtain ⟨⟨h1, h2, h3, h4, h5, h6, h7, -⟩, h8, h9, h10, -⟩ := hsub
  constructor
  · rw [h.gone_keyed h1, hgoes.sqDb]
  · rw [h.gone_self h2, hgoes.gverbs]
  · rw [h.gone_self h3, hgoes.qp.qp]
  · rw [h.gone_self h4, hgoes.qp.umem]
  · rw [h.gone_keyed h5, hgoes.qp.block]
  · rw [h.gone_self h6, hgoes.qp.umemDbr]
  · have hdbr : c.qp.dbrGoes (q.args attr) q.nicHandler =
        (dbrOnHost q.nicHandler q.sendDbrModeExt || c.qp.memFreeDbr) := rfl
    rw [h.gone_keyed h7, hgoes.qp.dbr, hdbr, Bool.or_eq_true]
    tauto
  · rw [h.gone_self h8, hcq.cq]
  · rw [h.gone_self h9, hcq.umem]
  · rw [h.gone_keyed h10, hcq.block]

end Pair

/-! ## Queue pairs and groups -/

/-- The pieces of a single queue pair. -/
def singlePieces (env : Env) (q : HlQp) (x : HlParts) (uar struct : Res) : List Piece :=
  x.piecesQp env q uar ++ ⟨uar, uar, []⟩ :: x.piecesCq env none ++ [⟨struct, struct, []⟩]

/-- The pieces of a group. -/
def groupPieces (env : Env) (q q' : HlQp) (x x' : HlParts) (uar struct : Res) : List Piece :=
  x.piecesQp env q uar ++ ⟨uar, uar, []⟩ :: x.piecesCq env (some uar) ++
    (x'.piecesQp env q' uar ++ x'.piecesCq env (some uar) ++ [⟨struct, struct, []⟩])

theorem forward_singlePieces (env : Env) (q : HlQp) (x : HlParts) (uar struct : Res) :
    Forward (fun _ => False) (singlePieces env q x uar struct) := by
  unfold singlePieces
  rw [List.append_assoc]
  refine Forward.append ((x.forward_piecesQp env q uar).mono ?_) ⟨nofun, ?_⟩
  · rintro r (rfl | rfl)
    · simp
    · simp [HlParts.piecesCq]
  · refine Forward.append ((x.forward_piecesCq env none).mono ?_) ⟨nofun, trivial⟩
    exact fun r hr => absurd hr (Option.not_mem_none r)

theorem forward_groupPieces (env : Env) (q q' : HlQp) (x x' : HlParts) (uar struct : Res) :
    Forward (· = uar) (groupPieces env q q' x x' uar struct) := by
  have hcq : ∀ (y : HlParts) (ps : List Piece),
      Forward (fun r => r ∈ ps.map (·.part) ∨ r = uar) (y.piecesCq env (some uar)) := by
    intro y ps
    exact (y.forward_piecesCq env (some uar)).mono fun r hr => Or.inr (Option.some.inj hr).symm
  unfold groupPieces
  simp only [List.append_assoc, List.cons_append]
  refine Forward.append ((x.forward_piecesQp env q uar).mono ?_) ⟨nofun, ?_⟩
  · rintro r (rfl | rfl)
    · simp
    · simp [HlParts.piecesCq]
  refine Forward.append (hcq x _) (Forward.append ((x'.forward_piecesQp env q' uar).mono ?_) ?_)
  · rintro r (rfl | rfl)
    · simp
    · simp [HlParts.piecesCq]
  · exact Forward.append (hcq x' _) ⟨nofun, trivial⟩

theorem createQpHl_built {calloc : Bool} {x : Res × HlQp}
    (h : createQpHl env attr calloc c w = (some x, w')) :
    ∃ (y : HlParts) (uar : Res), Pieces w w' (singlePieces env x.2 y uar x.1) ∧
      x.2.teardown ++ [x.1] = (singlePieces env x.2 y uar x.1).map (·.back) ∧
      uar.goes = c.uar.destroy ∧ HlGoes c (x.2.args attr) x.2.nicHandler y ∧
      CqGoes c.cq y.cq y.cqUmem y.cqBlock := by
  unfold createQpHl at h
  split_ifs at h with hargs
  · cases h
  generalize hs : createSingle env attr c (w.acquire .host [] true) = r at h
  obtain ⟨ending, q, w₁⟩ := r
  cases ending with
  | exitError => cases h
  | returned => cases h
  | built =>
    cases h
    obtain ⟨y, uar, hy, hgoes, hcqGoes, huar, ⟨hurefs, hugoes⟩, hg⟩ := createSingle_built hs
    have htear : q.teardown = _ := hy.teardown_pieces q.externalUar uar
    refine ⟨y, uar, ⟨((Grown.refl w).acquire .host [] true).append hg, ?_, ?_, ?_⟩, ?_, hugoes,
      hgoes, hcqGoes⟩
    · have hback := y.pieces_back env q uar none
      simp only [singlePieces, List.forall_mem_append, List.forall_mem_cons] at hback ⊢
      exact ⟨⟨hback.1, .inl trivial, hback.2⟩, .inl trivial, List.forall_mem_nil _⟩
    · have hrefs := hy.pieces_refs huar
      simp only [singlePieces, List.forall_mem_append, List.forall_mem_cons] at hrefs ⊢
      exact ⟨⟨hrefs.1, hurefs, hrefs.2⟩, rfl, List.forall_mem_nil _⟩
    · intro p hp r hr
      exact ((forward_singlePieces env q y uar _).refs_mem hp r hr).resolve_right id
    · rw [htear, huar]
      simp [singlePieces]

/-- **Where a single queue pair is destroyed in order.** -/
theorem destroyQpHl_early_iff {calloc : Bool} {x : Res × HlQp}
    (h : createQpHl env attr calloc c w = (some x, w')) (hk : Kept w w' w'')
    (he : w''.early = false) :
    (destroyQpHl x w'').early = false ↔ c.Orderly env x.2 c.uar.destroy := by
  obtain ⟨y, uar, hps, htear, hugoes, hgoes, hcqGoes⟩ := createQpHl_built h
  have huar : Gone ((singlePieces env x.2 y uar x.1).map (·.back)) uar ↔ c.uar.destroy = true := by
    have hmem : ⟨uar, uar, []⟩ ∈ singlePieces env x.2 y uar x.1 := by simp [singlePieces]
    rw [hps.gone_self hmem, hugoes]
  have hsub : ∀ p ∈ y.piecesQp env x.2 uar ++ y.piecesCq env none,
      p ∈ singlePieces env x.2 y uar x.1 := by
    intro p hp
    obtain hp | hp := List.mem_append.1 hp
    · simp [singlePieces, hp]
    · simp [singlePieces, hp]
  have hgone := hps.pairGone hsub hgoes hcqGoes
  unfold destroyQpHl
  rw [htear, hk.early_iff he hps, ← hgone.orderly_iff none huar (by simp)]
  · simp only [singlePieces, List.forall_mem_append, List.forall_mem_cons]
    simp
  · exact (forward_singlePieces env x.2 y uar x.1).mono fun _ => False.elim

theorem createQpGroupHl_built {calloc : Bool} {u : UarCalls} {main companion : HlCalls}
    {x : Res × HlQp × HlQp}
    (h : createQpGroupHl env attr calloc u main companion w = (some x, w')) :
    ∃ (y y' : HlParts) (uar : Res), Pieces w w' (groupPieces env x.2.1 x.2.2 y y' uar x.1) ∧
      groupTeardown x.2.1 x.2.2 x.1 =
        (groupPieces env x.2.1 x.2.2 y y' uar x.1).map (·.back) ∧
      uar.goes = u.destroy ∧
      (HlGoes main (x.2.1.args attr) x.2.1.nicHandler y ∧
        CqGoes main.cq y.cq y.cqUmem y.cqBlock) ∧
      (HlGoes companion (x.2.2.args attr) x.2.2.nicHandler y' ∧
        CqGoes companion.cq y'.cq y'.cqUmem y'.cqBlock) := by
  unfold createQpGroupHl at h
  split_ifs at h with hargs
  · cases h
  cases hs : (createUar .auto u (w.acquire .host [] true)).status with
  | error =>
    simp only [hs] at h
    cases h
  | success =>
    simp only [hs] at h
    generalize hmain : createOnUar env attr _ main _ = r at h
    obtain ⟨ending, q, w₁⟩ := r
    cases ending with
    | exitError => cases h
    | returned => cases h
    | built =>
      simp only at h
      generalize hcompanion : createOnUar env attr _ companion w₁ = r at h
      obtain ⟨ending, q', w₂⟩ := r
      cases ending with
      | exitError => cases h
      | returned => cases h
      | built =>
        cases h
        obtain ⟨y, hy, hgoes, hcqGoes, huar, hg₁⟩ := createOnUar_built hmain
        obtain ⟨y', hy', hgoes', hcqGoes', huar', hg₂⟩ := createOnUar_built hcompanion
        obtain ⟨-, uar, hmem, -⟩ := hy.qpParts.qp
        have hsome : q.externalUar = some uar := hmem
        rw [huar] at hsome
        obtain ⟨hfresh, hworld⟩ := createUar_some hsome
        rw [hworld] at hg₁
        rw [hsome] at hy hy' huar huar'
        have htear : q.teardown = _ := hy.teardown_pieces q.externalUar uar
        have htear' : q'.clearUar.teardown = _ := hy'.teardown_pieces none uar
        have hall := ((((Grown.refl w).acquire .host [] true).acquire .uar [] u.destroy).append
          hg₁).append hg₂
        refine ⟨y, y', uar, ⟨hall.perm ?_, ?_, ?_, ?_⟩, ?_, hfresh ▸ rfl, ⟨hgoes, hcqGoes⟩, hgoes',
          hcqGoes'⟩
        · rw [← hfresh]
          refine List.perm_iff_count.2 fun r => ?_
          simp only [groupPieces, HlParts.piecesQp, HlParts.piecesCq, HlParts.all, List.map_append,
            List.map_cons, List.map_nil, List.count_append, List.count_cons, List.count_nil]
          omega
        · have hback := y.pieces_back env q uar (some uar)
          have hback' := y'.pieces_back env q' uar (some uar)
          simp only [groupPieces, List.forall_mem_append, List.forall_mem_cons] at hback hback' ⊢
          exact ⟨⟨hback.1, .inl trivial, hback.2⟩, hback', .inl trivial, List.forall_mem_nil _⟩
        · have hrefs := hy.pieces_refs huar
          have hrefs' := hy'.pieces_refs huar'
          simp only [groupPieces, List.forall_mem_append, List.forall_mem_cons] at hrefs hrefs' ⊢
          exact ⟨⟨hrefs.1, hfresh ▸ rfl, hrefs.2⟩, hrefs', rfl, List.forall_mem_nil _⟩
        · intro p hp r hr
          obtain hmem | rfl := (forward_groupPieces env q q' y y' uar _).refs_mem hp r hr
          · exact hmem
          · simp [groupPieces]
        · unfold groupTeardown
          rw [htear, htear', huar]
          simp [groupPieces]

/-- **The UAR of a group is destroyed too early**, before the CQ of the main queue pair, unless its
destruction fails. -/
theorem destroyQpGroupHl_early {calloc : Bool} {u : UarCalls} {main companion : HlCalls}
    {x : Res × HlQp × HlQp}
    (h : createQpGroupHl env attr calloc u main companion w = (some x, w')) (hk : Kept w w' w'')
    (hu : u.destroy = true) : (destroyQpGroupHl x w'').early = true := by
  obtain ⟨y, y', uar, hps, htear, hugoes, -, -⟩ := createQpGroupHl_built h
  have hparts : ((groupPieces env x.2.1 x.2.2 y y' uar x.1).map (·.part)).Nodup := hps.grown.nodup
  have hcq : ⟨y.cq, y.cq, [y.cqUmem, uar]⟩ ∈ groupPieces env x.2.1 x.2.2 y y' uar x.1 := by
    simp [groupPieces, HlParts.piecesCq]
  have huar : ⟨uar, uar, []⟩ ∈ groupPieces env x.2.1 x.2.2 y y' uar x.1 := by simp [groupPieces]
  have huarHeld : uar ∈ w''.held := hk.mem hps.grown (List.mem_map_of_mem huar)
  have hcqHeld : y.cq ∈ w''.held := hk.mem hps.grown (List.mem_map_of_mem hcq)
  -- the parts that go before the UAR
  have hpre : ∀ r ∈ (y.piecesQp env x.2.1 uar).map (·.back), r ∈ w''.held →
      r ∈ (y.piecesQp env x.2.1 uar).map (·.part) := by
    intro r hr hheld
    obtain ⟨p, hp, rfl⟩ := List.mem_map.1 hr
    have hmem : p ∈ groupPieces env x.2.1 x.2.2 y y' uar x.1 := by simp [groupPieces, hp]
    exact hps.back_eq hmem hheld ▸ List.mem_map_of_mem hp
  have hdisj : ∀ r ∈ (y.piecesQp env x.2.1 uar).map (·.part), r ≠ uar ∧ r ≠ y.cq := by
    intro r hr
    simp only [groupPieces, List.append_assoc, List.map_append, List.cons_append, List.map_cons,
      HlParts.piecesCq] at hparts
    have hne := (List.nodup_append.1 hparts).2.2 r hr
    exact ⟨hne uar (by simp), hne y.cq (by simp)⟩
  have hrefers := (hps.refers_iff hcq huar).2 (by simp)
  unfold destroyQpGroupHl
  rw [htear]
  simp only [groupPieces, List.append_assoc, List.map_append, List.cons_append, List.map_cons]
  exact early_of_refers huarHeld (hugoes.trans hu) hcqHeld
    (fun hmem => (hdisj _ (hpre _ hmem huarHeld)).1 rfl)
    (fun hmem => (hdisj _ (hpre _ hmem hcqHeld)).2 rfl) hrefers

/-- **Where a group is destroyed in order.** -/
theorem destroyQpGroupHl_early_iff {calloc : Bool} {u : UarCalls} {main companion : HlCalls}
    {x : Res × HlQp × HlQp}
    (h : createQpGroupHl env attr calloc u main companion w = (some x, w')) (hk : Kept w w' w'')
    (he : w''.early = false) :
    (destroyQpGroupHl x w'').early = false ↔ u.destroy = false ∧
      main.Orderly env x.2.1 false ∧ companion.Orderly env x.2.2 false := by
  cases hu : u.destroy with
  | true =>
    rw [destroyQpGroupHl_early h hk hu]
    simp
  | false =>
    obtain ⟨y, y', uar, hps, htear, hugoes, hgoes, hgoes'⟩ := createQpGroupHl_built h
    have hmem : ⟨uar, uar, []⟩ ∈ groupPieces env x.2.1 x.2.2 y y' uar x.1 := by simp [groupPieces]
    have hstays : ¬ Gone ((groupPieces env x.2.1 x.2.2 y y' uar x.1).map (·.back)) uar := by
      rw [hps.gone_self hmem, hugoes, hu]
      exact Bool.false_ne_true
    have hsub : ∀ p ∈ y.piecesQp env x.2.1 uar ++ y.piecesCq env (some uar),
        p ∈ groupPieces env x.2.1 x.2.2 y y' uar x.1 := by
      intro p hp
      obtain hp | hp := List.mem_append.1 hp
      · simp [groupPieces, hp]
      · simp [groupPieces, hp]
    have hsub' : ∀ p ∈ y'.piecesQp env x.2.2 uar ++ y'.piecesCq env (some uar),
        p ∈ groupPieces env x.2.1 x.2.2 y y' uar x.1 := by
      intro p hp
      obtain hp | hp := List.mem_append.1 hp
      · simp [groupPieces, hp]
      · simp [groupPieces, hp]
    have hgone := hps.pairGone hsub hgoes.1 hgoes.2
    have hgone' := hps.pairGone hsub' hgoes'.1 hgoes'.2
    have huar : Gone ((groupPieces env x.2.1 x.2.2 y y' uar x.1).map (·.back)) uar ↔
        false = true := iff_of_false hstays Bool.false_ne_true
    unfold destroyQpGroupHl
    rw [htear, hk.early_iff he hps, ← hgone.orderly_iff (some uar) huar (by simpa using hstays),
      ← hgone'.orderly_iff (some uar) huar (by simpa using hstays)]
    · simp only [groupPieces, List.forall_mem_append, List.forall_mem_cons]
      simp [and_assoc]
    · refine (forward_groupPieces env x.2.1 x.2.2 y y' uar x.1).mono ?_
      rintro r rfl
      exact hstays

/-- **The order of the teardown**: a single queue pair is destroyed in order exactly if what refers
to a part that goes can be given back itself; a group, moreover, only where the destruction of its
UAR fails. -/
theorem destroy_order (env : Env) (attr : QpInitAttrHl) (calloc : Bool) (w w' w'' : World)
    (hk : Kept w w' w'') (he : w''.early = false) :
    (∀ c x, createQpHl env attr calloc c w = (some x, w') →
      ((destroyQpHl x w'').early = false ↔ c.Orderly env x.2 c.uar.destroy)) ∧
    ∀ uar main companion x,
      createQpGroupHl env attr calloc uar main companion w = (some x, w') →
        ((destroyQpGroupHl x w'').early = false ↔ uar.destroy = false ∧
          main.Orderly env x.2.1 false ∧ companion.Orderly env x.2.2 false) :=
  ⟨fun _ _ h => destroyQpHl_early_iff h hk he, fun _ _ _ _ h => destroyQpGroupHl_early_iff h hk he⟩

/-- From a process that holds nothing, nothing but what has been acquired is there at once. -/
theorem kept_init (w' : World) : Kept .init w' w' where
  held _ hr _ := hr
  closed _ hy _ _ _ _ := ⟨hy, List.not_mem_nil⟩

theorem eq_some_of_isSome {α β : Type} {r : Option α × β} (h : r.1.isSome = true) :
    ∃ x, r = (some x, r.2) := by
  obtain ⟨_ | x, b⟩ := r
  · cases h
  · exact ⟨x, rfl⟩

/-- Calls that all succeed. -/
theorem orderly_well (q : HlQp) (uarGoes : Bool) :
    (HlCalls.wellBut true).Orderly plainEnv q uarGoes :=
  ⟨fun _ _ => ⟨rfl, rfl⟩, fun _ => rfl, fun _ => rfl, fun _ => rfl, fun _ => rfl, fun _ => rfl⟩

theorem destroy_order_well : ∃ x w',
    createQpHl plainEnv plainAttr true (HlCalls.wellBut true) .init = (some x, w') ∧
      (destroyQpHl x w').early = false := by
  obtain ⟨x, hx⟩ := eq_some_of_isSome (r := createQpHl plainEnv plainAttr true
    (HlCalls.wellBut true) .init) (by decide)
  exact ⟨x, _, hx, ((destroy_order _ _ _ _ _ _ (kept_init _) (by decide)).1 _ x hx).2
    (orderly_well _ _)⟩

/-- A group made by calls that all succeed. -/
theorem destroy_disorder : ∃ x w',
    createQpGroupHl plainEnv plainAttr true ⟨true, true, true, true⟩ (HlCalls.wellBut true)
      (HlCalls.wellBut true) .init = (some x, w') ∧ w'.early = false ∧
      (destroyQpGroupHl x w').early = true := by
  obtain ⟨x, hx⟩ := eq_some_of_isSome (r := createQpGroupHl plainEnv plainAttr true
    ⟨true, true, true, true⟩ (HlCalls.wellBut true) (HlCalls.wellBut true) .init) (by decide)
  exact ⟨x, _, hx, by decide, destroyQpGroupHl_early hx (kept_init _) rfl⟩

end Gpunetio.Lifecycle
