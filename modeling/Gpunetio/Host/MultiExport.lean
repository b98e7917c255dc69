import Gpunetio.Host.Settle

/-!
# Exporting several QPs at once

`doca_gpu_verbs_export_multi_qps_dev` allocates an array on the device, sets the pointers of its QPs
one by one, stages a copy of each `qp_cpu` and copies them all to the device. It should do all of it
or nothing; the pointers are set before the last call that can fail.

* `DevSys`, `MultiArgs`, `exportMultiQpsDev`: the function with its status, `*out_qp_gpus` and the
  device copies; `exportMultiQpsDev_sys`, what it does to the rest;
* `AllOrNothing`, `MultiMeets`: the law, and when it is kept;
* `memAlloc_cases`: what an allocation can do; `placeAll_of_last`, `kept_placeAll_iff`: which
  pointers the loop leaves as they were;
* **`allOrNothing_iff`**; `all_and_nothing`.
-/

namespace Gpunetio.MultiExport

open Custody Trace

variable {D : Type*}

/-- The system, the contents of the `qp_cpu` of each QP, and the device copies by their address. -/
structure DevSys (D : Type*) where
  sys : ExportSys
  qpCpu : ℕ → D
  dev : ℕ → Option D

/-- The arguments, and the outcomes of the calls; `nullArg` says that a pointer among the arguments
is null. -/
structure MultiArgs where
  nullArg : Bool
  qps : List ℕ
  cuda : AllocCuda
  calloc : Bool
  memcpy : Bool
  free : FreeCuda
deriving DecidableEq, Repr

/-- The status, `*out_qp_gpus` if it is written, and the system after the call. -/
structure MultiResult (D : Type*) where
  status : MemError
  outQpGpus : Option ℕ
  after : DevSys D

/-- The `cudaMemcpy` of the staged copies to an array. -/
def copyArray (gpu : ℕ) (staged : List D) (dev : ℕ → Option D) : ℕ → Option D :=
  Loop.each (fun x => gpu + devQpSize * x.2) (fun x _ => some x.1) staged.zipIdx dev

section Model

variable (gdrcopy : Bool) (pageSize : ℕ)

/-- The allocation of the array. -/
def MultiArgs.array (a : MultiArgs) (s : DevSys D) : AllocArgs :=
  arrayArgs a.qps.length (s.sys.needCpuMapping a.qps)

/-- **`doca_gpu_verbs_export_multi_qps_dev`**. The staging array is freed on every path; when it
cannot be allocated, the status is still that of the allocation before. -/
def exportMultiQpsDev (a : MultiArgs) (s : DevSys D) : MultiResult D :=
  if a.nullArg = true ∨ a.qps = [] then ⟨.invalidValue, none, s⟩
  else
    let status := (Gpunetio.memAlloc gdrcopy pageSize (a.array s) a.cuda s.sys.mem.mem).1
    let sys := s.sys.allocated gdrcopy pageSize (a.array s) a.cuda
    match s.sys.memAlloc gdrcopy pageSize (a.array s) a.cuda with
    | .inl none => ⟨status, none, { s with sys := sys }⟩
    | .inl (some (gpu, _)) =>
      ⟨status, none, { s with sys := sys.freed gdrcopy pageSize gpu a.free }⟩
    | .inr (gpu, cpu) =>
      if a.calloc = false then ⟨status, none, { s with sys := sys }⟩
      else
        let sys := { sys with qp := ExportSys.placeAll gpu cpu a.qps s.sys.qp }
        let staged := a.qps.map s.qpCpu
        if a.memcpy = false then
          ⟨.driver, none, { s with sys := sys.freed gdrcopy pageSize gpu a.free }⟩
        else
          ⟨status, some gpu,
            { s with
              sys := { sys with arrays := (gpu, a.qps) :: s.sys.arrays }
              dev := copyArray gpu staged s.dev }⟩

/-- The rest of the system is that of a multi-export in a history of calls. -/
theorem exportMultiQpsDev_sys {a : MultiArgs} (hnull : a.nullArg = false) (s : DevSys D) :
    (exportMultiQpsDev gdrcopy pageSize a s).after.sys =
      s.sys.step gdrcopy pageSize
        (.exportMultiQpsDev a.qps a.cuda a.calloc a.memcpy a.free) := by
  simp only [exportMultiQpsDev, ExportSys.step, ExportSys.exportMultiQpsDev, hnull,
    Bool.false_eq_true, false_or, MultiArgs.array]
  by_cases hq : a.qps = []
  · simp only [if_pos hq]
  · simp only [if_neg hq]
    cases s.sys.memAlloc gdrcopy pageSize
        (arrayArgs a.qps.length (s.sys.needCpuMapping a.qps)) a.cuda with
    | inl o => cases o <;> rfl
    | inr p => cases a.calloc <;> cases a.memcpy <;> rfl

end Model

/-! ## The law -/

/-- `*out_qp_gpus` is an array of copies of the `qp_cpu` of the QPs, and the `qp_gpu` of each points
to its element. -/
def Exported (a : MultiArgs) (r : MultiResult D) : Prop :=
  ∃ gpu, r.outQpGpus = some gpu ∧ ∀ i w, a.qps[i]? = some w →
    r.after.dev (gpu + devQpSize * i) = some (r.after.qpCpu w) ∧
      ∃ e, r.after.sys.qp w = some e ∧ e.qpGpu.map MemPtr.addr = some (gpu + devQpSize * i)

/-- `qp_gpu`, `qp_gpu_h` and `cpu_db`. -/
def pointers (e : GpuVerbsQp) : Option ℕ × Option ℕ × Option ℕ :=
  (e.qpGpu.map MemPtr.addr, e.qpGpuH.map MemPtr.addr, e.cpuDb.map MemPtr.addr)

/-- The pointers of every QP are as before. -/
def Kept (qp qp' : ℕ → Option GpuVerbsQp) : Prop := ∀ w, (qp' w).map pointers = (qp w).map pointers

/-- **All or nothing.** The call succeeds if and only if the QPs are exported; otherwise all memory
it has acquired has been released, and the pointers of the QPs are as before. -/
structure AllOrNothing (a : MultiArgs) (s : DevSys D) (r : MultiResult D) : Prop where
  success : r.status = .success ↔ Exported a r
  nothing : r.status ≠ .success →
    r.after.sys.mem.mem = s.sys.mem.mem ∧ Kept s.sys.qp r.after.sys.qp

/-! ## When it is kept -/

/-- The pointers of a QP are those the loop writes for the `i`-th element. -/
def PointsAt (gpu cpu i : ℕ) (e : GpuVerbsQp) : Prop :=
  e.qpGpu.map MemPtr.addr = some (gpu + devQpSize * i) ∧
    (e.Assisted → e.qpGpuH.map MemPtr.addr = some (cpu + devQpSize * i) ∧
      e.cpuDb.map MemPtr.addr = some (cpu + devQpSize * i + sqWqePiOffset))

/-- Each QP points to the last of its elements already. -/
def AlreadyPlaced (gpu cpu : ℕ) (qps : List ℕ) (qp : ℕ → Option GpuVerbsQp) : Prop :=
  ∀ pre w post, qps = pre ++ w :: post → w ∉ post → ∀ e, qp w = some e →
    PointsAt gpu cpu pre.length e

/-- An allocation that fails leaves nothing behind; in a memory without entries, any key is new. -/
def FailsClean (gdrcopy : Bool) (cuda : AllocCuda) (mtype : MemType) : Prop :=
  MemSys.AllocMeets gdrcopy gpuPageSize cuda MemSys.empty mtype

/-- What keeps the law: an allocation that fails leaves nothing behind; the staging array can be
allocated; the QPs are different; and if the copy fails, the array can be freed, under a key that is
not null and was not in the table, and the QPs pointed to it already. -/
def MultiMeets (gdrcopy : Bool) (pageSize : ℕ) (a : MultiArgs) (s : DevSys D) : Prop :=
  a.nullArg = false → a.qps ≠ [] →
    FailsClean gdrcopy a.cuda (a.array s).mtype ∧
      ∀ gpu cpu, s.sys.memAlloc gdrcopy pageSize (a.array s) a.cuda = .inr (gpu, cpu) →
        a.calloc = true ∧
          if a.memcpy = true then a.qps.Nodup
          else
            (gpu ≠ 0 ∧ s.sys.mem.mem.mtable gpu = none ∧
              MemSys.FreeMeets gdrcopy a.free (a.array s).mtype) ∧
              AlreadyPlaced gpu cpu a.qps s.sys.qp

/-! ## The memory -/

section Memory

variable {pageSize : ℕ} {args : AllocArgs}

/-- The array's arguments are valid, and it is aligned to the pages of the device. -/
theorem array_valid (pageSize : ℕ) {a : MultiArgs} (hq : a.qps ≠ []) (s : DevSys D) :
    (a.array s).valid pageSize = true ∧ (a.array s).used pageSize = gpuPageSize := by
  have hlen : a.qps.length ≠ 0 := fun h => hq (List.eq_nil_of_length_eq_zero h)
  have hpage : privIsPowerOfTwo 65536 = true := by decide
  cases hm : s.sys.needCpuMapping a.qps <;>
    simp [MultiArgs.array, arrayArgs, AllocArgs.valid, AllocArgs.used, copyType, devQpSize,
      gpuPageSize, hm, hlen, hpage]

/-- **What an allocation can do**: fail and write nothing, fail after it has written its pointers,
or succeed. -/
theorem memAlloc_cases (gdrcopy : Bool) (cuda : AllocCuda) (s : ExportSys)
    (hv : args.valid pageSize = true) :
    (s.memAlloc gdrcopy pageSize args cuda = .inl none ∧
      (Gpunetio.memAlloc gdrcopy pageSize args cuda s.mem.mem).1 = .driver ∧
      ((s.allocated gdrcopy pageSize args cuda).mem.mem = s.mem.mem ↔
        MemSys.AllocMeets gdrcopy (args.used pageSize) cuda MemSys.empty args.mtype)) ∨
    ∃ m : Mentry, m.mtype = args.mtype ∧ m.Mapped gdrcopy ∧
      (MemSys.AllocMeets gdrcopy (args.used pageSize) cuda MemSys.empty args.mtype ↔
        cuda.insert = true) ∧
      if cuda.insert = true then
        s.memAlloc gdrcopy pageSize args cuda = .inr (m.alignAddrGpu, m.alignAddrCpu) ∧
          (Gpunetio.memAlloc gdrcopy pageSize args cuda s.mem.mem).1 = .success ∧
          (s.allocated gdrcopy pageSize args cuda).mem.mem =
            GpuMem.insert ⟨s.mem.mem.mtable,
              s.mem.mem.store.acquireAll (m.resources gdrcopy)⟩ m
      else
        s.memAlloc gdrcopy pageSize args cuda = .inl (some (m.alignAddrGpu, m.alignAddrCpu)) ∧
          (Gpunetio.memAlloc gdrcopy pageSize args cuda s.mem.mem).1 = .driver ∧
          (s.allocated gdrcopy pageSize args cuda).mem.mem =
            ⟨s.mem.mem.mtable, s.mem.mem.store.acquireAll (m.resources gdrcopy)⟩ := by
  cases hbr : (allocBranch (args.used pageSize) cuda s.mem.mem.store gdrcopy args.mtype).1 with
  | none =>
    refine .inl ⟨?_, ?_, ?_⟩
    · simp [ExportSys.memAlloc, Gpunetio.memAlloc, hv, hbr]
    · simp [Gpunetio.memAlloc, hv, hbr]
    · rw [← (allocBranch_none_over MemSys.empty hbr).eq_iff, ExportSys.allocated,
        MemSys.step_alloc_none hv hbr]
      exact ⟨fun heq => congrArg GpuMem.store heq, fun heq => by rw [MemSys.branch, heq]⟩
  | some m =>
    obtain ⟨⟨hst, hmap⟩, hmet⟩ := allocBranch_some MemSys.empty hbr
    refine .inr ⟨m, allocBranch_mtype hbr, hmap, ?_, ?_⟩
    · rw [hmet]
      exact and_iff_left rfl
    · cases hi : cuda.insert with
      | true =>
        refine ⟨?_, ?_, ?_⟩
        · simp [ExportSys.memAlloc, Gpunetio.memAlloc, hv, hbr, hi]
        · simp [Gpunetio.memAlloc, hv, hbr, hi]
        · rw [ExportSys.allocated, MemSys.step_alloc_some hv hbr hi]
          rfl
      | false =>
        refine ⟨?_, ?_, ?_⟩
        · simp [ExportSys.memAlloc, Gpunetio.memAlloc, hv, hbr, hi]
        · simp [Gpunetio.memAlloc, hv, hbr, hi]
        · rw [ExportSys.allocated, MemSys.step_alloc_insert_fails hv hbr hi, MemSys.branch, hst]
          rfl

end Memory

/-! ## The loop -/

section Placing

variable {gpu cpu i w : ℕ} {qps pre post : List ℕ} {qp : ℕ → Option GpuVerbsQp} {e : GpuVerbsQp}

/-- The last element of a QP decides. -/
theorem placeAll_of_last (gpu cpu : ℕ) (pre : List ℕ) (qp : ℕ → Option GpuVerbsQp)
    (h : w ∉ post) : ExportSys.placeAll gpu cpu (pre ++ w :: post) qp w =
      (qp w).map (ExportSys.place gpu cpu pre.length) := by
  have hnot : w ∉ (post.zipIdx (pre.length + 1)).map Prod.fst := by rwa [List.zipIdx_map_fst]
  rw [ExportSys.placeAll, List.zipIdx_append, List.zipIdx_cons, Nat.zero_add]
  exact Loop.each_of_last (fun x y d => ExportSys.map_place_place gpu cpu x.2 y.2 d)
    (e := (w, pre.length)) hnot

/-- The loop leaves the pointers of a QP exactly if they are those it writes. -/
theorem pointers_place_iff :
    pointers (ExportSys.place gpu cpu i e) = pointers e ↔ PointsAt gpu cpu i e := by
  rw [ExportSys.place, PointsAt]
  by_cases ha : e.Assisted
  · rw [if_pos ha, imp_iff_right ha, pointers, pointers, Prod.mk.injEq, Prod.mk.injEq]
    exact and_congr eq_comm (and_congr eq_comm eq_comm)
  · rw [if_neg ha, pointers, pointers, Prod.mk.injEq]
    exact ⟨fun h => ⟨h.1.symm, fun h' => (ha h').elim⟩, fun h => ⟨h.1.symm, rfl⟩⟩

/-- A QP that is in the list has a last place in it. -/
theorem exists_last (h : w ∈ qps) : ∃ pre post, qps = pre ++ w :: post ∧ w ∉ post := by
  obtain ⟨l, l', hl, hnot⟩ := List.eq_append_cons_of_mem (List.mem_reverse.2 h)
  refine ⟨l'.reverse, l.reverse, ?_, by simpa using hnot⟩
  rw [← List.reverse_reverse qps, hl]
  simp

theorem kept_placeAll_iff :
    Kept qp (ExportSys.placeAll gpu cpu qps qp) ↔ AlreadyPlaced gpu cpu qps qp := by
  constructor
  · rintro h pre w post rfl hpost e he
    have hw := h w
    rw [placeAll_of_last gpu cpu pre qp hpost, he] at hw
    exact pointers_place_iff.1 (Option.some.inj hw)
  · intro h w
    by_cases hw : w ∈ qps
    · obtain ⟨pre, post, rfl, hpost⟩ := exists_last hw
      rw [placeAll_of_last gpu cpu pre qp hpost]
      cases he : qp w with
      | none => rfl
      | some e => exact congrArg some (pointers_place_iff.2 (h pre w post rfl hpost e he))
    · rw [ExportSys.placeAll_of_notMem hw]

end Placing

/-! ## The outcomes -/

section Outcome

variable {gdrcopy : Bool} {pageSize : ℕ} {a : MultiArgs} {s : DevSys D} {r : MultiResult D}

/-- The elements of an array do not overlap, and each is the copy staged for it. -/
theorem copyArray_apply (gpu : ℕ) (dev : ℕ → Option D) {staged : List D} {i : ℕ} {d : D}
    (h : staged[i]? = some d) : copyArray gpu staged dev (gpu + devQpSize * i) = some d := by
  have hkeys : (staged.zipIdx.map fun x => gpu + devQpSize * x.2) =
      (List.range' 0 staged.length).map fun j => gpu + devQpSize * j := by
    rw [← List.zipIdx_map_snd, List.map_map]
    rfl
  have hnodup : (staged.zipIdx.map fun x => gpu + devQpSize * x.2).Nodup := by
    rw [hkeys]
    refine List.Nodup.map (fun j j' heq => ?_) List.nodup_range'
    exact Nat.eq_of_mul_eq_mul_left (show 0 < devQpSize by decide) (Nat.add_left_cancel heq)
  exact Loop.each_apply hnodup (List.mk_mem_zipIdx_iff_getElem?.2 h)

/-- A QP that is twice in the list cannot point to both of its elements. -/
theorem Exported.nodup (h : Exported a r) : a.qps.Nodup := by
  obtain ⟨gpu, -, hall⟩ := h
  rw [List.nodup_iff_getElem?_ne_getElem?]
  intro i j hij hj heq
  obtain ⟨w, hw⟩ : ∃ w, a.qps[j]? = some w := ⟨a.qps[j], List.getElem?_eq_getElem hj⟩
  obtain ⟨-, e, he, hi⟩ := hall i w (heq.trans hw)
  obtain ⟨-, e', he', hj'⟩ := hall j w hw
  obtain rfl := Option.some.inj (he.symm.trans he')
  have haddr := Option.some.inj (hi.symm.trans hj')
  have hpos : 0 < devQpSize := by decide
  exact hij.ne (Nat.eq_of_mul_eq_mul_left hpos (Nat.add_left_cancel haddr))

/-- A call that succeeds should have exported the QPs. -/
theorem allOrNothing_of_success (h : r.status = .success) : AllOrNothing a s r ↔ Exported a r :=
  ⟨fun hlaw => hlaw.success.1 h,
    fun hexp => ⟨iff_of_true h hexp, fun hne => (hne h).elim⟩⟩

/-- A call that fails should have undone what it has done. -/
theorem allOrNothing_of_failure (h : r.status ≠ .success) (hout : r.outQpGpus = none) :
    AllOrNothing a s r ↔ r.after.sys.mem.mem = s.sys.mem.mem ∧ Kept s.sys.qp r.after.sys.qp := by
  refine ⟨fun hlaw => hlaw.nothing h, fun hun => ⟨iff_of_false h ?_, fun _ => hun⟩⟩
  rintro ⟨gpu, hgpu, -⟩
  exact absurd (hgpu.symm.trans hout) nofun

theorem Kept.refl (qp : ℕ → Option GpuVerbsQp) : Kept qp qp := fun _ => rfl

/-- Nothing fails after the allocation. -/
theorem allOrNothing_copied {sys : ExportSys} {gpu cpu : ℕ}
    (hqp : sys.qp = ExportSys.placeAll gpu cpu a.qps s.sys.qp)
    (hexp : ∀ w ∈ a.qps, s.sys.qp w ≠ none) :
    AllOrNothing a s ⟨.success, some gpu,
      { s with sys := sys, dev := copyArray gpu (a.qps.map s.qpCpu) s.dev }⟩ ↔ a.qps.Nodup := by
  rw [allOrNothing_of_success rfl]
  refine ⟨Exported.nodup, fun hnodup => ⟨gpu, rfl, fun i w hw => ⟨?_, ?_⟩⟩⟩
  · exact copyArray_apply gpu s.dev (by simp [hw])
  · obtain ⟨e, he⟩ := Option.ne_none_iff_exists'.1 (hexp w (List.mem_of_getElem? hw))
    have hplaced : sys.qp w = (s.sys.qp w).map (ExportSys.place gpu cpu i) := by
      rw [hqp]
      exact Loop.each_apply (by rwa [List.zipIdx_map_fst]) (List.mk_mem_zipIdx_iff_getElem?.2 hw)
    refine ⟨ExportSys.place gpu cpu i e, hplaced.trans (by rw [he]; rfl), ?_⟩
    rw [(ExportSys.place_fields gpu cpu i e).2.2.2.1]
    rfl

/-- The copy fails: the array is freed, and the pointers stay. -/
theorem allOrNothing_uncopied {sys : ExportSys} {m : Mentry} (hmap : m.Mapped gdrcopy)
    (hmem : sys.mem.mem = GpuMem.insert ⟨s.sys.mem.mem.mtable,
      s.sys.mem.mem.store.acquireAll (m.resources gdrcopy)⟩ m)
    (hqp : sys.qp = ExportSys.placeAll m.alignAddrGpu m.alignAddrCpu a.qps s.sys.qp) :
    AllOrNothing a s ⟨.driver, none,
      { s with sys := sys.freed gdrcopy pageSize m.alignAddrGpu a.free }⟩ ↔
      (m.alignAddrGpu ≠ 0 ∧ s.sys.mem.mem.mtable m.alignAddrGpu = none ∧
        MemSys.FreeMeets gdrcopy a.free m.mtype) ∧
        AlreadyPlaced m.alignAddrGpu m.alignAddrCpu a.qps s.sys.qp := by
  rw [allOrNothing_of_failure (by simp) rfl, ← MemSys.memFree_insert_iff hmap, ← kept_placeAll_iff,
    ← hmem, ← hqp]
  rfl

/-- **When it is all or nothing.** For any list of exported QPs, in any modes, and any outcomes of
the calls made, the call keeps the law if and only if: where the allocation fails, it leaves nothing
behind; and where it succeeds, the staging array is allocated, and either the copy succeeds and the
QPs are different, or it fails and the array can be freed under a new key that is not null and the
pointers of the QPs were those the loop has written. -/
theorem allOrNothing_iff (gdrcopy : Bool) (pageSize : ℕ) (a : MultiArgs) (s : DevSys D)
    (hexp : ∀ w ∈ a.qps, s.sys.qp w ≠ none) :
    AllOrNothing a s (exportMultiQpsDev gdrcopy pageSize a s) ↔
      MultiMeets gdrcopy pageSize a s := by
  by_cases hno : a.nullArg = true ∨ a.qps = []
  · have hr : exportMultiQpsDev gdrcopy pageSize a s = ⟨.invalidValue, none, s⟩ := if_pos hno
    rw [hr, allOrNothing_of_failure (by simp) rfl]
    refine iff_of_true ⟨rfl, .refl _⟩ fun hnull hq => ?_
    exact (hno.elim (by simp [hnull]) hq).elim
  obtain ⟨hnull, hq⟩ := not_or.1 hno
  obtain ⟨hv, hused⟩ := array_valid pageSize hq s
  have hmeets := memAlloc_cases gdrcopy a.cuda s.sys hv
  rw [hused] at hmeets
  rw [exportMultiQpsDev, if_neg hno, MultiMeets, imp_iff_right (by simpa using hnull),
    imp_iff_right hq, FailsClean]
  obtain ⟨hr, hst, hclean⟩ | ⟨m, hmtype, hmap, hclean, hm⟩ := hmeets
  · -- the allocation fails
    simp only [hr, hst]
    rw [allOrNothing_of_failure (by simp) rfl, ← hclean]
    refine and_congr_right' (iff_of_true (.refl _) fun gpu cpu h => ?_)
    cases h
  rw [hclean]
  cases hi : a.cuda.insert with
  | false =>
    -- its entry does not get into the table, and what it has acquired is lost
    rw [hi, if_neg Bool.false_ne_true] at hm
    obtain ⟨hr, hst, hmem⟩ := hm
    simp only [hr, hst]
    rw [allOrNothing_of_failure (by simp) rfl]
    refine iff_of_false (fun h => ?_) fun h => absurd h.1 Bool.false_ne_true
    have hfree := h.1
    simp only [ExportSys.freed, MemSys.step, hmem] at hfree
    exact MemSys.memFree_lost_ne resources_ne_nil _ _ hfree
  | true =>
    rw [hi, if_pos rfl] at hm
    obtain ⟨hr, hst, hmem⟩ := hm
    simp only [hr, hst]
    have hone (p : ℕ → ℕ → Prop) : (∀ gpu cpu, (Sum.inr (m.alignAddrGpu, m.alignAddrCpu) :
        Option (ℕ × ℕ) ⊕ (ℕ × ℕ)) = .inr (gpu, cpu) → p gpu cpu) ↔
          p m.alignAddrGpu m.alignAddrCpu := by
      simp
    rw [hone, true_and]
    cases hc : a.calloc with
    | false =>
      -- the status is success, and the array is held
      rw [if_pos rfl, allOrNothing_of_success rfl]
      refine iff_of_false (fun h => ?_) fun h => Bool.false_ne_true h.1
      obtain ⟨gpu, hgpu, -⟩ := h
      cases hgpu
    | true =>
      rw [if_neg (by simp), and_iff_right rfl]
      cases hcopy : a.memcpy with
      | true => exact allOrNothing_copied rfl hexp
      | false =>
        rw [← hmtype]
        exact allOrNothing_uncopied hmap hmem rfl

/-- Two QPs in different modes are exported, and nothing fails. -/
theorem allOrNothing_iff_two :
    let cuda : AllocCuda := ⟨some 65536, true, true, some 1, true, some 2, some 3, true, some 4096,
      true, some 4096, true, true⟩
    let free : FreeCuda := ⟨true, true, true, true⟩
    let e : GpuVerbsQp := ⟨.noDbrSwEmulated, none, .gpuSmNoDbr, 8192, none, none⟩
    let e' : GpuVerbsQp := ⟨.validDbr, none, .gpuSmDb, 8192, none, none⟩
    let s : DevSys ℕ := ⟨{ ExportSys.empty with qp := fun w => if w = 0 then some e else some e' },
      fun w => w + 7, fun _ => none⟩
    let a : MultiArgs := ⟨false, [0, 1], cuda, true, true, free⟩
    (∀ w ∈ a.qps, s.sys.qp w ≠ none) ∧ AllOrNothing a s (exportMultiQpsDev true 4096 a s) := by
  intro cuda free e e' s a
  have hexp : ∀ w ∈ a.qps, s.sys.qp w ≠ none := by decide
  have hmeets : MultiMeets true 4096 a s := by
    intro _ _
    refine ⟨fun p hp => ⟨by decide, rfl, rfl⟩, fun gpu cpu _ => ⟨rfl, ?_⟩⟩
    rw [if_pos rfl]
    decide
  exact ⟨hexp, (allOrNothing_iff true 4096 a s hexp).2 hmeets⟩

/-- Two QPs are exported one by one, then at once. The staging array cannot be allocated: the call
succeeds, `*out_qp_gpus` is not written, and the array on the device is held. And the copy fails:
the call fails and the array is freed, but `qp_gpu` and `cpu_db` point into it. -/
theorem all_and_nothing :
    let cuda : AllocCuda := ⟨some 65536, true, true, some 1, true, some 2, some 3, true, some 4096,
      true, some 4096, true, true⟩
    let free : FreeCuda := ⟨true, true, true, true⟩
    let e : ExportCall := ⟨false, .gpuSmNoDbr, .noDbrSwEmulated, true, true, some .noDbrExt,
      some 8192, ⟨true, some 8192, true⟩, cuda, true, true⟩
    let e' : ExportCall := { e with
      nicHandler := .gpuSmDb, sendDbrModeExt := .validDbr, sendDbrMode := some .dbrValid }
    let s : DevSys ℕ := ⟨run (ExportSys.step true 4096) .empty [.exportQp e, .exportQp e'],
      fun w => w + 7, fun _ => none⟩
    let a : MultiArgs := ⟨false, [0, 1], cuda, false, true, free⟩
    let a' : MultiArgs := { a with calloc := true, memcpy := false }
    let r := exportMultiQpsDev true 4096 a s
    let r' := exportMultiQpsDev true 4096 a' s
    ((∀ w ∈ a.qps, s.sys.qp w ≠ none) ∧ r.status = .success ∧ r.outQpGpus = none ∧
      r.after.sys.mem.mem.mtable 65536 ≠ none ∧ ¬ AllOrNothing a s r) ∧
      r'.status = .driver ∧ r'.after.sys.mem.mem.mtable 65536 = none ∧
      s.sys.qp 0 = some ⟨.noDbrSwEmulated, none, .gpuSmNoDbr, 8192, none, none⟩ ∧
      r'.after.sys.qp 0 = some ⟨.noDbrSwEmulated, some ⟨65536, 19⟩, .gpuSmNoDbr, 8192,
        some ⟨65536, 65536⟩, some ⟨65536, 3⟩⟩ ∧ ¬ AllOrNothing a' s r' := by
  intro cuda free e e' s a a' r r'
  have hout : r.outQpGpus = none := by decide
  have hqp : s.sys.qp 0 = some ⟨.noDbrSwEmulated, none, .gpuSmNoDbr, 8192, none, none⟩ := by decide
  have hqp' : r'.after.sys.qp 0 = some ⟨.noDbrSwEmulated, some ⟨65536, 19⟩, .gpuSmNoDbr, 8192,
      some ⟨65536, 65536⟩, some ⟨65536, 3⟩⟩ := by decide
  have hst : r'.status = .driver := by decide
  refine ⟨⟨by decide, by decide, hout, by decide, fun h => ?_⟩, hst, by decide, hqp, hqp',
    fun h => ?_⟩
  · obtain ⟨gpu, hgpu, -⟩ := h.success.1 (by decide)
    exact nomatch hgpu.symm.trans hout
  · have hkept := (h.nothing (by rw [hst]; nofun)).2 0
    rw [hqp, hqp'] at hkept
    exact absurd hkept (by decide)

end Outcome

end Gpunetio.MultiExport
