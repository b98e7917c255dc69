import Gpunetio.Host.Lifecycle

/-!
# What the parts of a creation acquire and give back

* `World.Grown`: since a world exactly these resources have been acquired and kept;
* `World.Spoiled`: something was misused, a descriptor stayed open, or something cannot be given
  back, which nothing later undoes;
* `createGpuUmem_eq`; **`createCq_built`**, **`createCq_failed`**, **`createQp_built`**,
  **`createQp_failed`**: what each part leaves on every path.
-/

namespace Gpunetio.Lifecycle

open Custody Teardown

variable {w w' w'' : World} {l l' rs : List Res} {r x : Res}

namespace World

/-! ## Growing worlds -/

@[simp] theorem mem_held_acquire (kind : ResKind) (refs : List ℕ) (goes : Bool) :
    r ∈ (w.acquire kind refs goes).held ↔ r = w.fresh kind refs goes ∨ r ∈ w.held := List.mem_cons

@[simp] theorem next_acquire (kind : ResKind) (refs : List ℕ) (goes : Bool) :
    (w.acquire kind refs goes).next = w.next + 1 := rfl

@[simp] theorem misuse_acquire (kind : ResKind) (refs : List ℕ) (goes : Bool) :
    (w.acquire kind refs goes).misuse = w.misuse := rfl

@[simp] theorem openFds_acquire (kind : ResKind) (refs : List ℕ) (goes : Bool) :
    (w.acquire kind refs goes).openFds = w.openFds := rfl

/-- What is stuck stays so. -/
theorem stuck_release : (w.release r).Stuck x ↔ w.Stuck x := by
  by_cases hr : w.Stuck r
  · have hsite : (w.release r).site = w.site := if_pos hr
    rw [Stuck, Stuck, hsite]
  · have hsite : (w.release r).site = w.site.release Res.Refers r := if_neg hr
    rw [Stuck, Stuck, hsite]
    constructor
    · rintro ⟨hx, hgoes⟩
      exact ⟨Site.mem_of_mem_release Res.Refers hx, hgoes⟩
    · rintro ⟨hx, hgoes⟩
      refine ⟨Site.mem_release_of_ne Res.Refers hx ?_, hgoes⟩
      rintro rfl
      exact hr ⟨hx, hgoes⟩

theorem releaseAll_cons : w.releaseAll (r :: rs) = (w.release r).releaseAll rs := rfl

/-- The calls that fail change nothing. -/
theorem site_releaseAll (rs : List Res) (w : World) : (w.releaseAll rs).site =
    w.site.releaseAll Res.Refers (rs.filter fun r => ¬ w.Stuck r) := by
  induction rs generalizing w with
  | nil => rfl
  | cons r rs ih =>
    have hrest : (rs.filter fun x => ¬ (w.release r).Stuck x) = rs.filter fun x => ¬ w.Stuck x :=
      List.filter_congr fun x _ => by simp only [stuck_release]
    rw [releaseAll_cons, ih, hrest]
    by_cases hr : w.Stuck r
    · rw [List.filter_cons_of_neg (by simpa using hr)]
      congr 1
      exact if_pos hr
    · rw [List.filter_cons_of_pos (by simpa using hr), Site.releaseAll_cons]
      congr 1
      exact if_neg hr

@[simp] theorem mem_held_releaseAll :
    r ∈ (w.releaseAll rs).held ↔ r ∈ w.held ∧ (r ∈ rs → r.goes = false) := by
  rw [held, site_releaseAll, Site.mem_releaseAll Res.Refers w.nodup]
  refine and_congr_right fun hr => ?_
  simp [Stuck, hr]

@[simp] theorem next_releaseAll : (w.releaseAll rs).next = w.next := by
  induction rs generalizing w with
  | nil => rfl
  | cons r rs ih => exact ih

@[simp] theorem openFds_releaseAll : (w.releaseAll rs).openFds = w.openFds := by
  induction rs generalizing w with
  | nil => rfl
  | cons r rs ih => exact ih

theorem misuse_releaseAll_iff : (w.releaseAll rs).misuse = true ↔ w.misuse = true ∨
    ¬ ((rs.filter fun r => ¬ w.Stuck r).Nodup ∧ ∀ r ∈ rs, r ∈ w.held) := by
  rw [misuse, site_releaseAll, Site.misuse_releaseAll_iff Res.Refers w.nodup]
  refine or_congr_right (not_congr (and_congr_right fun _ => ?_))
  simp only [List.mem_filter, decide_eq_true_eq, and_imp]
  constructor
  · intro h r hr
    by_cases hs : w.Stuck r
    · exact hs.1
    · exact h r hr hs
  · exact fun h r hr _ => h r hr

/-- Some descriptors stay open. -/
def addFds (n : ℕ) (w : World) : World := { w with openFds := w.openFds + n }

theorem stray_notMem : Res.stray ∉ w.held := fun h => absurd (w.valid _ h).1 (Nat.lt_irrefl 0)

/-- Since `w` exactly the resources of `l` have been acquired and kept. -/
structure Grown (w w' : World) (l : List Res) : Prop where
  held : ∀ r, r ∈ w'.held ↔ r ∈ l ∨ r ∈ w.held
  fresh : ∀ r ∈ l, w.next ≤ r.id
  ids : (l.map (·.id)).Nodup
  next : w.next ≤ w'.next
  misuse : w'.misuse = w.misuse

theorem Grown.refl (w : World) : w.Grown w [] where
  held r := by simp
  fresh := by simp
  ids := List.nodup_nil
  next := le_rfl
  misuse := rfl

theorem Grown.notMem (h : w.Grown w' l) (hr : r ∈ l) : r ∉ w.held :=
  fun hw => absurd (w.valid r hw).2 (not_lt.2 (h.fresh r hr))

theorem Grown.nodup (h : w.Grown w' l) : l.Nodup := List.Nodup.of_map _ h.ids

theorem Grown.id_lt (h : w.Grown w' l) (hr : r ∈ l) : r.id < w'.next :=
  (w'.valid r ((h.held r).2 (Or.inl hr))).2

theorem Grown.acquire (h : w.Grown w' l) (kind : ResKind) (refs : List ℕ) (goes : Bool) :
    w.Grown (w'.acquire kind refs goes) (w'.fresh kind refs goes :: l) where
  held r := by rw [mem_held_acquire, h.held, List.mem_cons, or_assoc]
  fresh r hr := by
    obtain rfl | hr := List.mem_cons.1 hr
    · exact h.next
    · exact h.fresh r hr
  ids := by
    rw [List.map_cons]
    refine List.nodup_cons.2 ⟨fun hmem => ?_, h.ids⟩
    obtain ⟨r, hr, hid⟩ := List.mem_map.1 hmem
    exact absurd (hid ▸ h.id_lt hr) (Nat.lt_irrefl _)
  next := h.next.trans (Nat.le_succ _)
  misuse := h.misuse

theorem Grown.addFds (h : w.Grown w' l) (n : ℕ) : w.Grown (w'.addFds n) l :=
  ⟨h.held, h.fresh, h.ids, h.next, h.misuse⟩

/-- What has been acquired is given back. -/
theorem Grown.release (h : w.Grown w' l) (hp : l.Perm (rs ++ l'))
    (hgo : ∀ r ∈ rs, r.goes = true) : w.Grown (w'.releaseAll rs) l' := by
  have hnodup := List.nodup_append.1 (hp.nodup_iff.1 h.nodup)
  have hmem : ∀ r, r ∈ l ↔ r ∈ rs ∨ r ∈ l' := fun r => hp.mem_iff.trans List.mem_append
  constructor
  · intro r
    rw [mem_held_releaseAll, h.held, hmem]
    constructor
    · rintro ⟨(hr | hr) | hr, hnot⟩
      · have hstuck := hnot hr
        rw [hgo r hr] at hstuck
        cases hstuck
      · exact Or.inl hr
      · exact Or.inr hr
    · rintro (hr | hr)
      · exact ⟨Or.inl (Or.inr hr), fun hrs => absurd rfl (hnodup.2.2 r hrs r hr)⟩
      · exact ⟨Or.inr hr, fun hrs => absurd hr (h.notMem ((hmem r).2 (Or.inl hrs)))⟩
  · exact fun r hr => h.fresh r ((hmem r).2 (Or.inr hr))
  · have hids := (hp.map (·.id)).nodup_iff.1 h.ids
    rw [List.map_append] at hids
    exact (List.nodup_append.1 hids).2.1
  · exact h.next.trans (le_of_eq next_releaseAll.symm)
  · have hiff : (w'.releaseAll rs).misuse = true ↔ _ := misuse_releaseAll_iff
    have hok : (rs.filter fun r => ¬ w'.Stuck r).Nodup ∧ ∀ r ∈ rs, r ∈ w'.held :=
      ⟨hnodup.1.filter _, fun r hr => (h.held r).2 (Or.inl ((hmem r).2 (Or.inl hr)))⟩
    rw [← h.misuse, Bool.eq_iff_iff, hiff]
    exact or_iff_left (not_not.2 hok)

theorem Grown.perm (h : w.Grown w' l) (hp : l.Perm l') : w.Grown w' l' where
  held r := by rw [h.held, hp.mem_iff]
  fresh r hr := h.fresh r (hp.mem_iff.2 hr)
  ids := (hp.map _).nodup_iff.1 h.ids
  next := h.next
  misuse := h.misuse

theorem Grown.append {l' : List Res} (h : w.Grown w' l) (h' : w'.Grown w'' l') :
    w.Grown w'' (l' ++ l) where
  held r := by rw [h'.held, h.held, List.mem_append, or_assoc]
  fresh r hr := by
    obtain hr | hr := List.mem_append.1 hr
    · exact h.next.trans (h'.fresh r hr)
    · exact h.fresh r hr
  ids := by
    rw [List.map_append]
    refine List.nodup_append.2 ⟨h'.ids, h.ids, ?_⟩
    intro i hi j hj hij
    obtain ⟨r, hr, rfl⟩ := List.mem_map.1 hi
    obtain ⟨r', hr', rfl⟩ := List.mem_map.1 hj
    have hlt := h.id_lt hr'
    have hge := h'.fresh r hr
    omega
  next := h.next.trans h'.next
  misuse := h'.misuse.trans h.misuse

theorem Grown.release_head (h : w.Grown w' (r :: l)) (hgo : r.goes = true) :
    w.Grown (w'.releaseAll [r]) l :=
  h.release (.refl _) (by simpa using hgo)

/-! ## Spoiled worlds -/

/-- Something was misused, a descriptor stayed open, or something is stuck. -/
def Spoiled (w w' : World) : Prop :=
  w'.misuse = true ∨ w.openFds < w'.openFds ∨ ∃ r, w'.Stuck r ∧ r ∉ w.held

/-- What is spoiled stays so. -/
structure Later (w w' : World) : Prop where
  misuse : w.misuse = true → w'.misuse = true
  openFds : w.openFds ≤ w'.openFds
  stuck : ∀ r, w.Stuck r → w'.Stuck r

theorem Later.refl (w : World) : w.Later w := ⟨id, le_rfl, fun _ => id⟩

theorem Later.trans (h : w.Later w') (h' : w'.Later w'') : w.Later w'' :=
  ⟨fun hm => h'.misuse (h.misuse hm), h.openFds.trans h'.openFds,
    fun r hr => h'.stuck r (h.stuck r hr)⟩

theorem Later.spoiled (h : w'.Later w'') (hs : w.Spoiled w') : w.Spoiled w'' := by
  obtain hs | hs | ⟨r, hr, hnot⟩ := hs
  · exact Or.inl (h.misuse hs)
  · exact Or.inr (Or.inl (hs.trans_le h.openFds))
  · exact Or.inr (Or.inr ⟨r, h.stuck r hr, hnot⟩)

theorem Spoiled.of_later (hs : w'.Spoiled w'') (h : w.Later w') : w.Spoiled w'' := by
  obtain hs | hs | ⟨r, hr, hnot⟩ := hs
  · exact Or.inl hs
  · exact Or.inr (Or.inl (h.openFds.trans_lt hs))
  · exact Or.inr (Or.inr ⟨r, hr, fun hw => hnot (h.stuck r ⟨hw, hr.2⟩).1⟩)

theorem Grown.later (h : w.Grown w' l) (hfd : w.openFds ≤ w'.openFds) : w.Later w' :=
  ⟨fun hm => h.misuse.trans hm, hfd, fun r hr => ⟨(h.held r).2 (Or.inr hr.1), hr.2⟩⟩

theorem later_releaseAll (rs : List Res) : w.Later (w.releaseAll rs) where
  misuse h := misuse_releaseAll_iff.2 (Or.inl h)
  openFds := le_of_eq openFds_releaseAll.symm
  stuck _ hr := ⟨mem_held_releaseAll.2 ⟨hr.1, fun _ => hr.2⟩, hr.2⟩

/-- Something has been acquired that cannot be given back. -/
theorem Grown.stuck (h : w.Grown w' l) (hl : ¬ ∀ r ∈ l, r.goes = true) : w.Spoiled w' := by
  simp only [not_forall, Bool.not_eq_true] at hl
  obtain ⟨r, hr, hgoes⟩ := hl
  exact Or.inr (Or.inr ⟨r, ⟨(h.held r).2 (Or.inl hr), hgoes⟩, h.notMem hr⟩)

/-- Something is given back that is not held, -/
theorem Grown.spoils (h : w.Grown w' l) (hr : r ∈ rs) (hl : r ∉ l) (hw : r ∉ w.held) :
    w.Spoiled (w'.releaseAll rs) := by
  refine Or.inl (misuse_releaseAll_iff.2 (Or.inr fun hok => ?_))
  obtain hmem | hmem := (h.held r).1 (hok.2 r hr)
  · exact hl hmem
  · exact hw hmem

theorem Grown.spoils_stray (h : w.Grown w' l) (hr : Res.stray ∈ rs) :
    w.Spoiled (w'.releaseAll rs) := by
  refine h.spoils hr (fun hmem => ?_) fun hmem => stray_notMem hmem
  exact absurd (h.fresh _ hmem) (not_le.2 w.pos)

/-- or twice. -/
theorem Grown.spoils_twice (h : w.Grown w' l) (hl : r ∈ l) (hr : [r, r].Sublist rs) :
    w.Spoiled (w'.releaseAll rs) := by
  cases hgoes : r.goes with
  | true =>
    refine Or.inl (misuse_releaseAll_iff.2 (Or.inr fun hok => ?_))
    have hsub := hr.filter fun x => decide ¬ w'.Stuck x
    rw [List.filter_cons_of_pos (by simp [Stuck, hgoes])] at hsub
    have htwo := hok.1.sublist hsub
    simp [Stuck, hgoes] at htwo
  | false =>
    refine (later_releaseAll rs).spoiled (h.stuck fun hall => ?_)
    rw [hall r hl] at hgoes
    cases hgoes

end World

/-! ## UARs and umems -/

/-- `create_gpu_umem` makes a umem. -/
def UmemCalls.makes (c : UmemCalls) : MemRegType → Bool
  | .default => c.create || c.dmabufFd.any (· > 0) && c.peermem
  | .cudaDmabuf => c.dmabufFd.isSome && c.create
  | .cudaPeermem => c.create
  | .other => false

/-- `create_gpu_umem` leaves its descriptor open: number 0 always, any other if there is no umem. -/
def UmemCalls.leaks (c : UmemCalls) (mregType : MemRegType) : Bool :=
  (mregType = .default ∨ mregType = .cudaDmabuf) &&
    (c.dmabufFd = some 0 || c.dmabufFd.isSome && !c.makes mregType)

theorem createGpuUmem_makes {mregType : MemRegType} {buf : Res} {c : UmemCalls}
    (h : c.makes mregType = true) :
    createGpuUmem mregType buf c w =
      ⟨.success, some (w.fresh .umem [buf.id] c.destroy),
        (w.acquire .umem [buf.id] c.destroy).addFds (c.leaks mregType).toNat⟩ := by
  obtain ⟨fd, create, peermem, destroy⟩ := c
  cases mregType <;> rcases fd with _ | _ | fd <;> cases create <;> cases peermem <;>
    first | rfl | cases h

theorem createGpuUmem_fails {mregType : MemRegType} {buf : Res} {c : UmemCalls}
    (h : c.makes mregType = false) :
    createGpuUmem mregType buf c w =
      ⟨if mregType = .other then .success else .error, none,
        w.addFds (c.leaks mregType).toNat⟩ := by
  obtain ⟨fd, create, peermem, destroy⟩ := c
  cases mregType <;> rcases fd with _ | _ | fd <;> cases create <;> cases peermem <;>
    first | rfl | cases h

/-! ## Exits -/

/-- Everything has been given back. -/
structure World.Returned (w w' : World) : Prop where
  grown : w.Grown w' []
  openFds : w'.openFds = w.openFds

/-- A part that fails: all is given back exactly under a condition, else something is spoiled. -/
structure Ends (w w' : World) (p : Prop) : Prop where
  later : w.Later w'
  returned : p → w.Returned w'
  spoiled : ¬ p → w.Spoiled w'

theorem Ends.congr {p q : Prop} (h : Ends w w' p) (hpq : q ↔ p) : Ends w w' q :=
  ⟨h.later, fun hq => h.returned (hpq.1 hq), fun hq => h.spoiled fun hp => hq (hpq.2 hp)⟩

/-- The pointer of a buffer is the address by which `doca_gpu_mem_free` knows it. -/
def Env.Keyed (env : Env) : Prop := env.enableUmemCpu = true → env.hostPointerOnDevice = true

instance (env : Env) : Decidable env.Keyed := by unfold Env.Keyed; infer_instance

theorem memFree_devPtr_of_gpuMem (env : Env) (hr : r.kind = .gpuMem) :
    memFree (env.devPtr r) = if env.Keyed then r else .stray := by
  unfold Env.devPtr Env.Keyed memFree
  by_cases h1 : env.enableUmemCpu <;> by_cases h2 : env.hostPointerOnDevice <;> simp [h1, h2, hr]

theorem memFree_devPtr (env : Env) (w : World) (refs : List ℕ) (goes : Bool) :
    memFree (env.devPtr (w.fresh .gpuMem refs goes)) =
      if env.Keyed then w.fresh .gpuMem refs goes else .stray :=
  memFree_devPtr_of_gpuMem env rfl

theorem ends_exit {p : Prop} {n : ℕ} (h : w.Grown w' l) (hfd : w'.openFds = w.openFds + n)
    (hkeyed : p → l.Perm rs) (hstray : ¬ p → .stray ∈ rs) :
    Ends w (w'.releaseAll rs) (p ∧ n = 0 ∧ ∀ r ∈ l, r.goes = true) where
  later := (h.later (hfd ▸ Nat.le_add_right _ _)).trans (World.later_releaseAll rs)
  returned := by
    rintro ⟨hp, rfl, hgo⟩
    have hperm := hkeyed hp
    refine ⟨h.release ?_ fun r hr => hgo r (hperm.mem_iff.2 hr), World.openFds_releaseAll.trans hfd⟩
    rwa [List.append_nil]
  spoiled hnot := by
    have hlater := World.later_releaseAll (w := w') rs
    by_cases hp : p
    · by_cases hn : n = 0
      · exact hlater.spoiled (h.stuck fun hgo => hnot ⟨hp, hn, hgo⟩)
      · refine hlater.spoiled (Or.inr (Or.inl ?_))
        exact hfd ▸ Nat.lt_add_of_pos_right (Nat.pos_of_ne_zero hn)
    · exact h.spoils_stray (hstray hp)

/-- An exit that frees one buffer. -/
theorem ends_cleanup {env : Env} {block ptr : Res} (pre : List Res) {n : ℕ} (h : w.Grown w' l)
    (hfd : w'.openFds = w.openFds + n) (hptr : memFree ptr = if env.Keyed then block else .stray)
    (hperm : l.Perm (pre ++ [block])) :
    Ends w (w'.releaseAll (pre ++ [memFree ptr]))
      (env.Keyed ∧ n = 0 ∧ ∀ r ∈ l, r.goes = true) := by
  refine ends_exit h hfd (fun hk => ?_) fun hk => ?_
  · rwa [hptr, if_pos hk]
  · simp [hptr, hk]

theorem ends_spoiled {p : Prop} {n : ℕ} (hp : ¬ p) (h : w.Grown w' l)
    (hfd : w'.openFds = w.openFds + n) (hs : w.Spoiled (w'.releaseAll rs)) :
    Ends w (w'.releaseAll rs) p where
  later := (h.later (hfd ▸ Nat.le_add_right _ _)).trans (World.later_releaseAll rs)
  returned h' := absurd h' hp
  spoiled _ := hs

/-! ## Completion queues -/

namespace CqCalls

/-- The ring is allocated. -/
def allocated (c : CqCalls) : Bool := c.attr && c.alloc = .ok

/-- The ring is filled and goes to be registered. -/
def registers (c : CqCalls) (env : Env) : Bool :=
  c.allocated && c.calloc && (env.enableUmemCpu || c.memcpy)

/-- The copy into the ring fails. -/
def copyFails (c : CqCalls) (env : Env) : Bool :=
  c.allocated && c.calloc && !(env.enableUmemCpu || c.memcpy)

/-- The CQ is made. -/
def creates (c : CqCalls) (env : Env) : Bool :=
  c.registers env && c.umem.makes (env.mreg false) && c.set && c.create

/-- `create_cq` makes a CQ and returns it. -/
def built (c : CqCalls) (env : Env) : Bool := c.creates env && c.attrDestroy

/-- Every exit that is taken gives back what was acquired: no pointer that was never set is freed,
the buffer is freed by its key, no descriptor stays open, the attributes are destroyed once, and the
calls that free the buffer and destroy the umem succeed. -/
structure Clean (c : CqCalls) (env : Env) : Prop where
  slot : c.attr = true → c.alloc = .fails → c.slotNull = true
  entry : c.attr = true → c.alloc ≠ .entryLost
  keyed : c.allocated = true → c.built env = false → env.Keyed
  closed : c.registers env = true → c.umem.leaks (env.mreg false) = false
  once : c.creates env = true → c.attrDestroy = true
  memFree : c.allocated = true → c.memFree = true
  dereg : c.registers env = true → c.umem.makes (env.mreg false) = true → c.umem.destroy = true

theorem clean_iff (c : CqCalls) (env : Env) : c.Clean env ↔
    (c.attr = true → c.alloc = .fails → c.slotNull = true) ∧
    (c.attr = true → c.alloc ≠ .entryLost) ∧
    (c.allocated = true → c.built env = false → env.Keyed) ∧
    (c.registers env = true → c.umem.leaks (env.mreg false) = false) ∧
    (c.creates env = true → c.attrDestroy = true) ∧
    (c.allocated = true → c.memFree = true) ∧
    (c.registers env = true → c.umem.makes (env.mreg false) = true → c.umem.destroy = true) :=
  ⟨fun h => ⟨h.slot, h.entry, h.keyed, h.closed, h.once, h.memFree, h.dereg⟩,
    fun ⟨h1, h2, h3, h4, h5, h6, h7⟩ => ⟨h1, h2, h3, h4, h5, h6, h7⟩⟩

end CqCalls

/-- The CQ, its umem and its buffer, each referring to the next. -/
structure CqParts (uar : Option Res) (cq umem block : Res) : Prop where
  cq : cq.kind = .cq ∧ cq.refs = umem.id :: uar.toList.map (·.id)
  umem : umem.kind = .umem ∧ umem.refs = [block.id]
  block : block.kind = .gpuMem ∧ block.refs = []

/-- The outcomes of the calls that give them back. -/
structure CqGoes (c : CqCalls) (cq umem block : Res) : Prop where
  cq : cq.goes = c.destroy
  umem : umem.goes = c.umem.destroy
  block : block.goes = c.memFree

/-- A call of `create_cq` that jumps to its exit after a failed call. -/
structure CqFails (w : World) (m : Made CqOut) (p : Prop) : Prop where
  status : m.status = .error
  verbsCq : m.out.verbsCq = none
  ends : Ends w m.world p

section Cq

variable {env : Env} {uar : Option Res} {c : CqCalls} {attr umem block ptr : Res} {n : ℕ}

variable (uar c) in
theorem finishCq_failed (h : w.Grown w' [umem, block, attr]) (hattr : attr.goes = true)
    (hfd : w'.openFds = w.openFds + n)
    (hptr : memFree ptr = if env.Keyed then block else .stray)
    (hb : (c.create && c.attrDestroy) = false) :
    CqFails w (finishCq uar attr umem ptr c w')
      (c.create = false ∧ env.Keyed ∧ n = 0 ∧ umem.goes = true ∧ block.goes = true) := by
  unfold finishCq
  by_cases hcreate : c.create
  · have hdestroy : c.attrDestroy = false := by simpa [hcreate] using hb
    simp only [hcreate, hdestroy, Bool.not_true, Bool.not_false, Bool.false_eq_true, if_false,
      if_true]
    have hacq := h.acquire .cq (umem.id :: uar.toList.map (·.id)) c.destroy
    have hgrown := hacq.release (show List.Perm _ ([attr] ++
      [w'.fresh .cq (umem.id :: uar.toList.map (·.id)) c.destroy, umem, block]) by grind)
      (by simpa using hattr)
    refine ⟨rfl, rfl, ends_spoiled (by simp) hgrown (World.openFds_releaseAll.trans hfd)
      (hgrown.spoils (r := attr) ?_ ?_ (h.notMem (by simp)))⟩
    · simp [CqLocals.cleanup]
    · have := hacq.nodup
      grind
  · simp only [hcreate, Bool.not_false, if_true]
    refine ⟨rfl, rfl, (ends_cleanup [attr, umem] h hfd hptr (by grind)).congr ?_⟩
    simp [hattr]

variable (uar ptr c) in
theorem finishCq_built (h : w.Grown w' [umem, block, attr]) (hattr : attr.goes = true)
    (hb : (c.create && c.attrDestroy) = true) :
    ∃ (cq : Res) (w'' : World), finishCq uar attr umem ptr c w' = ⟨.success, ⟨cq, umem, ptr⟩, w''⟩ ∧
      w.Grown w'' [cq, umem, block] ∧ w''.openFds = w'.openFds ∧
      cq.kind = .cq ∧ cq.refs = umem.id :: uar.toList.map (·.id) ∧ cq.goes = c.destroy := by
  rw [Bool.and_eq_true] at hb
  have hgrown := (h.acquire .cq (umem.id :: uar.toList.map (·.id)) c.destroy).release
    (show List.Perm _
      ([attr] ++ [w'.fresh .cq (umem.id :: uar.toList.map (·.id)) c.destroy, umem, block]) by
      grind) (by simpa using hattr)
  unfold finishCq
  simp only [hb.1, hb.2, Bool.not_true, Bool.false_eq_true, if_false]
  exact ⟨_, _, rfl, hgrown, World.openFds_releaseAll, rfl, rfl, rfl⟩

variable (uar c) in
theorem registerCq_failed (h : w.Grown w' [block, attr]) (hattr : attr.goes = true)
    (hfd : w'.openFds = w.openFds)
    (hptr : memFree (env.devPtr block) = if env.Keyed then block else .stray)
    (hb : (c.umem.makes (env.mreg false) && c.set && c.create && c.attrDestroy) = false) :
    CqFails w (registerCq env uar attr block c w')
      ((c.umem.makes (env.mreg false) && c.set && c.create) = false ∧ env.Keyed ∧
        c.umem.leaks (env.mreg false) = false ∧
        (c.umem.makes (env.mreg false) = true → c.umem.destroy = true) ∧ block.goes = true) := by
  unfold registerCq
  by_cases hmakes : c.umem.makes (env.mreg false) = true
  · have hgrown := (h.acquire .umem [block.id] c.umem.destroy).addFds
      (c.umem.leaks (env.mreg false)).toNat
    rw [createGpuUmem_makes hmakes]
    by_cases hset : c.set = true
    · simp only [hset, Bool.not_true, Bool.false_eq_true, if_false]
      have hfail := finishCq_failed uar c hgrown hattr (congrArg (· + _) hfd) hptr
        (by simpa [hmakes, hset] using hb)
      exact ⟨hfail.status, hfail.verbsCq, hfail.ends.congr (by simp [hmakes, World.fresh])⟩
    · simp only [hset, Bool.not_false, if_true]
      refine ⟨rfl, rfl, (ends_cleanup [attr, w'.fresh .umem [block.id] c.umem.destroy] hgrown
        (congrArg (· + _) hfd) hptr (by grind)).congr ?_⟩
      simp [hmakes, hattr, World.fresh]
  · rw [Bool.not_eq_true] at hmakes
    have hends := ends_cleanup [attr] (h.addFds (c.umem.leaks (env.mreg false)).toNat)
      (congrArg (· + _) hfd) hptr (by grind)
    rw [createGpuUmem_fails hmakes]
    by_cases hother : env.mreg false = .other
    · rw [if_pos hother]
      exact ⟨rfl, rfl, hends.congr (by simp [hmakes, hattr])⟩
    · rw [if_neg hother]
      exact ⟨rfl, rfl, hends.congr (by simp [hmakes, hattr])⟩

variable (env uar c) in
theorem registerCq_built (h : w.Grown w' [block, attr]) (hattr : attr.goes = true)
    (hb : (c.umem.makes (env.mreg false) && c.set && c.create && c.attrDestroy) = true) :
    ∃ (cq umem : Res) (w'' : World),
      registerCq env uar attr block c w' = ⟨.success, ⟨cq, umem, env.devPtr block⟩, w''⟩ ∧
      w.Grown w'' [cq, umem, block] ∧
      w''.openFds = w'.openFds + (c.umem.leaks (env.mreg false)).toNat ∧
      (cq.kind = .cq ∧ cq.refs = umem.id :: uar.toList.map (·.id)) ∧
      (umem.kind = .umem ∧ umem.refs = [block.id]) ∧
      cq.goes = c.destroy ∧ umem.goes = c.umem.destroy := by
  simp only [Bool.and_eq_true] at hb
  obtain ⟨⟨⟨hmakes, hset⟩, hcreate⟩, hdestroy⟩ := hb
  have hgrown := (h.acquire .umem [block.id] c.umem.destroy).addFds
    (c.umem.leaks (env.mreg false)).toNat
  obtain ⟨cq, w'', heq, hw, hfds, hkind, hrefs, hgoes⟩ :=
    finishCq_built uar c (env.devPtr block) hgrown hattr (by simp [hcreate, hdestroy])
  refine ⟨cq, w'.fresh .umem [block.id] c.umem.destroy, w'', ?_, hw, hfds, ⟨hkind, hrefs⟩,
    ⟨rfl, rfl⟩, hgoes, rfl⟩
  unfold registerCq
  rw [createGpuUmem_makes hmakes]
  simp only [hset, Bool.not_true, Bool.false_eq_true, if_false]
  exact heq

/-- What `create_cq` leaves when it makes no CQ. -/
structure CqFailed (env : Env) (c : CqCalls) (w : World) (m : Made CqOut) : Prop where
  verbsCq : m.out.verbsCq = none
  status : m.status = .success ↔ c.copyFails env = true
  ends : Ends w m.world (c.Clean env)

theorem createCq_failed (uar : Option Res) (w : World) (hb : c.built env = false) :
    CqFailed env c w (createCq env uar c w) := by
  have h1 := (World.Grown.refl w).acquire .cqAttr [] true
  have hgo : (w.fresh .cqAttr [] true).goes = true := rfl
  unfold createCq
  by_cases hattr : c.attr = true
  swap
  · rw [Bool.not_eq_true] at hattr
    simp only [hattr, Bool.not_false, if_true]
    refine ⟨rfl, by simp [CqCalls.copyFails, CqCalls.allocated, hattr], ?_⟩
    refine ⟨.refl w, fun _ => ⟨.refl w, rfl⟩, fun hnot => absurd ?_ hnot⟩
    simp [CqCalls.clean_iff, CqCalls.allocated, CqCalls.registers, CqCalls.creates, hattr]
  simp only [hattr, Bool.not_true, Bool.false_eq_true, if_false]
  cases halloc : c.alloc with
  | fails =>
    refine ⟨rfl, ?_, ?_⟩
    · simp [CqLocals.destroyResources, CqCalls.copyFails, CqCalls.allocated, halloc]
    refine (ends_exit (p := c.slotNull = true) (n := 0) h1 rfl (fun hp => ?_) fun hp => ?_).congr ?_
    · simp [CqLocals.cleanup, hp]
    · simp [CqLocals.cleanup, hp, memFree, Res.stray]
    simp [CqCalls.clean_iff, CqCalls.allocated, CqCalls.registers, CqCalls.creates, hattr, halloc,
      hgo]
  | entryLost =>
    refine ⟨rfl, ?_, ?_⟩
    · simp [CqLocals.destroyResources, CqCalls.copyFails, CqCalls.allocated, halloc]
    refine ends_spoiled (n := 0) (fun hc => hc.entry hattr halloc) h1 rfl (h1.spoils_stray ?_)
    simp [CqLocals.cleanup, memFree, Res.stray]
  | ok =>
    have hptr := memFree_devPtr env (w.acquire .cqAttr [] true) [] c.memFree
    have h2 := h1.acquire .gpuMem [] c.memFree
    by_cases hcalloc : c.calloc = true
    swap
    · simp only [hcalloc, Bool.not_false, if_true]
      refine ⟨rfl, by simp [CqLocals.destroyResources, CqCalls.copyFails, hcalloc], ?_⟩
      refine (ends_cleanup (n := 0) [w.fresh .cqAttr [] true] h2 rfl hptr (by grind)).congr ?_
      simp [CqCalls.clean_iff, CqCalls.allocated, CqCalls.registers, CqCalls.creates, CqCalls.built,
        hattr, halloc, hcalloc, World.fresh]
    have h3 := h2.acquire .host [] true
    simp only [hcalloc, Bool.not_true, Bool.false_eq_true, if_false]
    by_cases hcopy : (!env.enableUmemCpu && !c.memcpy) = true
    · rw [if_pos hcopy]
      have hno : (env.enableUmemCpu || c.memcpy) = false := by simpa using hcopy
      refine ⟨rfl, by simp [CqLocals.destroyResources, CqCalls.copyFails, CqCalls.allocated, hattr,
        halloc, hcalloc, hno], ?_⟩
      refine (ends_cleanup (n := 0) [w.fresh .cqAttr [] true, _] h3 rfl hptr (by grind)).congr ?_
      simp [CqCalls.clean_iff, CqCalls.allocated, CqCalls.registers, CqCalls.creates, CqCalls.built,
        hattr, halloc, hcalloc, hno, World.fresh]
    · rw [if_neg hcopy]
      have hyes : (env.enableUmemCpu || c.memcpy) = true := by
        cases henv : env.enableUmemCpu <;> simp_all
      have halloc' : c.allocated = true := by simp [CqCalls.allocated, hattr, halloc]
      have hreg : c.registers env = true := by simp [CqCalls.registers, halloc', hcalloc, hyes]
      have hfail := registerCq_failed uar c (h3.release_head rfl) hgo
        World.openFds_releaseAll hptr (by simpa [CqCalls.built, CqCalls.creates, hreg] using hb)
      refine ⟨hfail.verbsCq, ?_, hfail.ends.congr
        ⟨fun hc => ⟨?_, hc.keyed halloc' hb, hc.closed hreg, hc.dereg hreg, hc.memFree halloc'⟩,
        fun ⟨hno, hkeyed, hleaks, hdereg, hfree⟩ =>
          ⟨?_, ?_, fun _ _ => hkeyed, fun _ => hleaks, fun hcr => ?_, fun _ => hfree,
            fun _ => hdereg⟩⟩⟩
      · rw [hfail.status]
        simp [CqCalls.copyFails, hyes]
      · by_contra hcr
        have hcreates : c.creates env = true := by
          simpa [CqCalls.creates, hreg, and_assoc] using hcr
        simp [CqCalls.built, hcreates, hc.once hcreates] at hb
      · simp [halloc]
      · simp [halloc]
      · rw [CqCalls.creates, hreg, Bool.true_and, hno] at hcr
        cases hcr

/-- The CQ that `create_cq` makes. -/
theorem createCq_built (uar : Option Res) (w : World) (hb : c.built env = true) :
    ∃ (cq umem block : Res) (w' : World),
      createCq env uar c w = ⟨.success, ⟨cq, umem, env.devPtr block⟩, w'⟩ ∧
      w.Grown w' [cq, umem, block] ∧
      w'.openFds = w.openFds + (c.umem.leaks (env.mreg false)).toNat ∧
      CqParts uar cq umem block ∧ CqGoes c cq umem block := by
  have hall := hb
  simp only [CqCalls.built, CqCalls.creates, CqCalls.registers, CqCalls.allocated, Bool.and_eq_true,
    decide_eq_true_eq] at hall
  obtain ⟨⟨⟨⟨⟨⟨⟨hattr, halloc⟩, hcalloc⟩, hcopy⟩, hmakes⟩, hset⟩, hcreate⟩, hdestroy⟩ := hall
  have hcopy' : (!env.enableUmemCpu && !c.memcpy) = false := by
    cases henv : env.enableUmemCpu <;> simp_all
  have h3 := (((World.Grown.refl w).acquire .cqAttr [] true).acquire .gpuMem [] c.memFree).acquire
    .host [] true
  obtain ⟨cq, umem, w', heq, hw, hfds, hcq, humem, hgoes, hugoes⟩ :=
    registerCq_built env uar c (h3.release_head rfl) rfl
      (by simp [hmakes, hset, hcreate, hdestroy])
  refine ⟨cq, umem, _, w', ?_, hw, ?_, ⟨hcq, humem, rfl, rfl⟩, hgoes, hugoes, rfl⟩
  · unfold createCq
    simp only [hattr, halloc, hcalloc, hcopy', Bool.not_true, Bool.false_eq_true, if_false]
    exact heq
  · rw [hfds, World.openFds_releaseAll]
    rfl

end Cq

/-! ## Queue pairs -/

/-- `create_qp` frees the doorbell record by this function. -/
def freeDbr (nicHandler : NicHandler) : Res → Res :=
  if nicHandler = .cpuProxy then free else memFree

/-- `doca_gpu_verbs_destroy_qp_hl_internal` frees the doorbell record by this function. -/
def tearDbr (nicHandler : NicHandler) (ext : DbrModeExt) : Res → Res :=
  if dbrOnHost nicHandler ext then free else memFree

namespace QpCalls

/-- The handler with which `create_qp` goes on to the ring. -/
def handler (c : QpCalls) (a : QpArgs) : Option NicHandler :=
  if c.attr && a.externalUar.isSome && c.setUar then
    if a.reqNicHandler = .auto then
      c.canRegister.map fun canRegister =>
        settle a.sendDbrModeExt (if canRegister then .gpuSmDb else .cpuProxy)
    else some (settle a.sendDbrModeExt a.reqNicHandler)
  else none

/-- The ring is allocated and registered. -/
def reachesDbr (c : QpCalls) (env : Env) : Bool :=
  c.alloc = .ok && c.umem.makes (env.mreg false) && c.setUmem

/-- The doorbell record is allocated. -/
def hasDbr (c : QpCalls) (a : QpArgs) (h : NicHandler) : Bool :=
  if dbrOnHost h a.sendDbrModeExt then c.callocDbr else c.allocDbr = .ok

/-- The type of registration of the doorbell record. -/
def mregDbr (env : Env) (a : QpArgs) (h : NicHandler) : MemRegType :=
  env.mreg (dbrOnHost h a.sendDbrModeExt)

/-- The QP is made, once there is a doorbell record. -/
def finishes (c : QpCalls) (env : Env) (a : QpArgs) (h : NicHandler) : Bool :=
  c.umemDbr.makes (mregDbr env a h) && a.cqSq.isSome && c.set && c.create

/-- The QP is made. -/
def creates (c : QpCalls) (env : Env) (a : QpArgs) (h : NicHandler) : Bool :=
  c.reachesDbr env && c.hasDbr a h && c.finishes env a h

/-- `create_qp` makes a QP and returns it. -/
def built (c : QpCalls) (env : Env) (a : QpArgs) : Bool :=
  (c.handler a).any fun h => c.creates env a h && c.attrDestroy

/-- `calloc` of the doorbell record fails. -/
def callocFails (c : QpCalls) (env : Env) (a : QpArgs) : Bool :=
  (c.handler a).any fun h =>
    c.reachesDbr env && dbrOnHost h a.sendDbrModeExt && !c.callocDbr

theorem callocFails_of_built {c : QpCalls} {env : Env} {a : QpArgs} (hb : c.built env a = true) :
    c.callocFails env a = false := by
  unfold built at hb
  unfold callocFails
  cases hh : c.handler a with
  | none => rfl
  | some h =>
    simp only [hh, Option.any_some, creates, Bool.and_eq_true] at hb ⊢
    have hhas : c.hasDbr a h = true := hb.1.1.2
    unfold hasDbr at hhas
    cases hhost : dbrOnHost h a.sendDbrModeExt with
    | false => simp
    | true =>
      rw [hhost, if_pos rfl] at hhas
      simp [hhas]

/-- The clean-up frees the doorbell record by the function that matches its allocator. -/
def FreesDbr (env : Env) (a : QpArgs) (h : NicHandler) : Prop :=
  if dbrOnHost h a.sendDbrModeExt then h = .cpuProxy else env.Keyed

/-- The call that frees the doorbell record succeeds. -/
def dbrGoes (c : QpCalls) (a : QpArgs) (h : NicHandler) : Bool :=
  dbrOnHost h a.sendDbrModeExt || c.memFreeDbr

/-- Every exit that is taken from the ring on gives back what was acquired. -/
structure CleanFrom (c : QpCalls) (env : Env) (a : QpArgs) (h : NicHandler) : Prop where
  slot : c.alloc = .fails → c.slotNull = true
  entry : c.alloc ≠ .entryLost
  keyed : c.alloc = .ok → env.Keyed
  closed : c.alloc = .ok → c.umem.leaks (env.mreg false) = false
  allocDbr : c.reachesDbr env = true → dbrOnHost h a.sendDbrModeExt = false → c.allocDbr = .ok
  freesDbr : c.reachesDbr env = true → c.hasDbr a h = true → FreesDbr env a h
  closedDbr : c.reachesDbr env = true → c.hasDbr a h = true →
    c.umemDbr.leaks (mregDbr env a h) = false
  once : c.creates env a h = true → c.attrDestroy = true
  memFree : c.alloc = .ok → c.memFree = true
  dereg : c.alloc = .ok → c.umem.makes (env.mreg false) = true → c.umem.destroy = true
  dbrGoes : c.reachesDbr env = true → c.hasDbr a h = true → c.dbrGoes a h = true
  deregDbr : c.reachesDbr env = true → c.hasDbr a h = true →
    c.umemDbr.makes (mregDbr env a h) = true → c.umemDbr.destroy = true

theorem cleanFrom_iff (c : QpCalls) (env : Env) (a : QpArgs) (h : NicHandler) :
    c.CleanFrom env a h ↔
      (c.alloc = .fails → c.slotNull = true) ∧ c.alloc ≠ .entryLost ∧
      (c.alloc = .ok → env.Keyed) ∧
      (c.alloc = .ok → c.umem.leaks (env.mreg false) = false) ∧
      (c.reachesDbr env = true → dbrOnHost h a.sendDbrModeExt = false → c.allocDbr = .ok) ∧
      (c.reachesDbr env = true → c.hasDbr a h = true → FreesDbr env a h) ∧
      (c.reachesDbr env = true → c.hasDbr a h = true →
        c.umemDbr.leaks (mregDbr env a h) = false) ∧
      (c.creates env a h = true → c.attrDestroy = true) ∧
      (c.alloc = .ok → c.memFree = true) ∧
      (c.alloc = .ok → c.umem.makes (env.mreg false) = true → c.umem.destroy = true) ∧
      (c.reachesDbr env = true → c.hasDbr a h = true → c.dbrGoes a h = true) ∧
      (c.reachesDbr env = true → c.hasDbr a h = true →
        c.umemDbr.makes (mregDbr env a h) = true → c.umemDbr.destroy = true) :=
  ⟨fun h => ⟨h.slot, h.entry, h.keyed, h.closed, h.allocDbr, h.freesDbr, h.closedDbr, h.once,
      h.memFree, h.dereg, h.dbrGoes, h.deregDbr⟩,
    fun ⟨h1, h2, h3, h4, h5, h6, h7, h8, h9, h10, h11, h12⟩ =>
      ⟨h1, h2, h3, h4, h5, h6, h7, h8, h9, h10, h11, h12⟩⟩

/-- Every exit that is taken gives back what was acquired. -/
def Clean (c : QpCalls) (env : Env) (a : QpArgs) : Prop :=
  ∀ h, c.handler a = some h → c.CleanFrom env a h

end QpCalls

/-- The QP, the two umems and the two buffers, and what they refer to. -/
structure QpParts (a : QpArgs) (h : NicHandler) (qp umem block umemDbr dbr : Res) : Prop where
  qp : qp.kind = .qp ∧ ∃ uar ∈ a.externalUar, ∃ cq ∈ a.cqSq,
    qp.refs = [uar.id, umem.id, umemDbr.id, cq.id]
  umem : umem.kind = .umem ∧ umem.refs = [block.id]
  block : block.kind = .gpuMem ∧ block.refs = []
  umemDbr : umemDbr.kind = .umem ∧ umemDbr.refs = [dbr.id]
  dbr : dbr.kind = (if dbrOnHost h a.sendDbrModeExt then .host else .gpuMem) ∧ dbr.refs = []

/-- The outcomes of the calls that give them back. -/
structure QpGoes (c : QpCalls) (a : QpArgs) (h : NicHandler) (qp umem block umemDbr dbr : Res) :
    Prop where
  qp : qp.goes = c.destroy
  umem : umem.goes = c.umem.destroy
  block : block.goes = c.memFree
  umemDbr : umemDbr.goes = c.umemDbr.destroy
  dbr : dbr.goes = c.dbrGoes a h

/-- A call of `create_qp` that jumps to its exit. -/
structure QpFails (w : World) (m : Made QpOut) (status : Status) (p : Prop) : Prop where
  status : m.status = status
  out : m.out = .null
  ends : Ends w m.world p

section Qp

variable {env : Env} {a : QpArgs} {c : QpCalls} {h : NicHandler}
  {attr uar umem block ptr umemDbr dbr dbrPtr : Res} {n : ℕ} {p : Prop} [Decidable p]

/-- An exit that frees two buffers. -/
theorem ends_cleanup_dbr (pre mid : List Res) {x : Res} (hw : w.Grown w' l)
    (hfd : w'.openFds = w.openFds + n) (hptr : memFree ptr = if env.Keyed then block else .stray)
    (hx : x = if p then dbr else .stray) (hperm : l.Perm (pre ++ [block] ++ mid ++ [dbr])) :
    Ends w (w'.releaseAll (pre ++ [memFree ptr] ++ mid ++ [x]))
      ((env.Keyed ∧ p) ∧ n = 0 ∧ ∀ r ∈ l, r.goes = true) := by
  refine ends_exit hw hfd (fun hk => ?_) fun hk => ?_
  · rwa [hptr, hx, if_pos hk.1, if_pos hk.2]
  · by_cases hkey : env.Keyed
    · have hp : ¬ p := fun hp => hk ⟨hkey, hp⟩
      simp [hx, hp]
    · simp [hptr, hkey]

variable (uar h c a) in
theorem finishQp_failed (hw : w.Grown w' [umemDbr, dbr, umem, block, attr])
    (hattr : attr.goes = true) (hfd : w'.openFds = w.openFds + n)
    (hptr : memFree ptr = if env.Keyed then block else .stray)
    (hdbr : freeDbr h dbrPtr = if p then dbr else .stray)
    (hb : (a.cqSq.isSome && c.set && c.create && c.attrDestroy) = false) :
    QpFails w (finishQp a h attr uar umem ptr umemDbr dbrPtr c w') .error
      ((a.cqSq.isSome && c.set && c.create) = false ∧ (env.Keyed ∧ p) ∧ n = 0 ∧
        ∀ r ∈ [umemDbr, dbr, umem, block], r.goes = true) := by
  have hends := ends_cleanup_dbr [attr, umem] [umemDbr] hw hfd hptr hdbr (by grind)
  unfold finishQp
  cases hcq : a.cqSq with
  | none => exact ⟨rfl, rfl, hends.congr (by simp [hattr])⟩
  | some cq =>
    by_cases hset : c.set = true
    swap
    · simp only [hset, Bool.not_false, if_true]
      exact ⟨rfl, rfl, hends.congr (by simp [hattr])⟩
    by_cases hcreate : c.create = true
    swap
    · simp only [hset, hcreate, Bool.not_true, Bool.not_false, Bool.false_eq_true, if_false,
        if_true]
      exact ⟨rfl, rfl, hends.congr (by simp [hattr])⟩
    have hdestroy : c.attrDestroy = false := by simpa [hcq, hset, hcreate] using hb
    simp only [hset, hcreate, hdestroy, Bool.not_true, Bool.not_false, Bool.false_eq_true, if_false,
      if_true]
    have hacq := hw.acquire .qp [uar.id, umem.id, umemDbr.id, cq.id] c.destroy
    have hgrown := hacq.release (show List.Perm _ ([attr] ++
      [w'.fresh .qp [uar.id, umem.id, umemDbr.id, cq.id] c.destroy, umemDbr, dbr, umem, block]) by
      grind) (by simpa using hattr)
    refine ⟨rfl, rfl, ends_spoiled (by simp) hgrown (World.openFds_releaseAll.trans hfd)
      (hgrown.spoils (r := attr) ?_ ?_ (hw.notMem (by simp)))⟩
    · simp [QpLocals.cleanup]
    · have := hacq.nodup
      grind

variable (uar ptr dbrPtr h c a) in
theorem finishQp_built (hw : w.Grown w' [umemDbr, dbr, umem, block, attr])
    (hattr : attr.goes = true)
    (hb : (a.cqSq.isSome && c.set && c.create && c.attrDestroy) = true) :
    ∃ (qp : Res) (w'' : World), finishQp a h attr uar umem ptr umemDbr dbrPtr c w' =
        ⟨.success, ⟨qp, umem, ptr, umemDbr, dbrPtr, h⟩, w''⟩ ∧
      w.Grown w'' [qp, umem, block, umemDbr, dbr] ∧ w''.openFds = w'.openFds ∧
      (qp.kind = .qp ∧ ∃ cq ∈ a.cqSq, qp.refs = [uar.id, umem.id, umemDbr.id, cq.id]) ∧
      qp.goes = c.destroy := by
  simp only [Bool.and_eq_true] at hb
  obtain ⟨⟨⟨hcq, hset⟩, hcreate⟩, hdestroy⟩ := hb
  obtain ⟨cq, hcq⟩ := Option.isSome_iff_exists.1 hcq
  have hacq := hw.acquire .qp [uar.id, umem.id, umemDbr.id, cq.id] c.destroy
  have hgrown := hacq.release (show List.Perm _ ([attr] ++
    [w'.fresh .qp [uar.id, umem.id, umemDbr.id, cq.id] c.destroy, umem, block, umemDbr, dbr]) by
    grind) (by simpa using hattr)
  unfold finishQp
  simp only [hcq, hset, hcreate, hdestroy, Bool.not_true, Bool.false_eq_true, if_false]
  exact ⟨_, _, rfl, hgrown, World.openFds_releaseAll, ⟨rfl, cq, rfl, rfl⟩, rfl⟩

variable (uar c) in
theorem registerDbr_failed (hw : w.Grown w' [dbr, umem, block, attr]) (hattr : attr.goes = true)
    (hfd : w'.openFds = w.openFds + n) (hptr : memFree ptr = if env.Keyed then block else .stray)
    (hdbr : freeDbr h dbrPtr = if p then dbr else .stray)
    (hb : (c.finishes env a h && c.attrDestroy) = false) :
    QpFails w (registerDbr env a h attr uar umem ptr dbrPtr c w') .error
      (c.finishes env a h = false ∧ (env.Keyed ∧ p) ∧
        n + (c.umemDbr.leaks (QpCalls.mregDbr env a h)).toNat = 0 ∧
        (c.umemDbr.makes (QpCalls.mregDbr env a h) = true → c.umemDbr.destroy = true) ∧
        ∀ r ∈ [dbr, umem, block], r.goes = true) := by
  have hfds : w'.openFds + (c.umemDbr.leaks (QpCalls.mregDbr env a h)).toNat =
    w.openFds + (n + (c.umemDbr.leaks (QpCalls.mregDbr env a h)).toNat) := by omega
  unfold registerDbr
  by_cases hmakes : c.umemDbr.makes (QpCalls.mregDbr env a h) = true
  · have hgrown := (hw.acquire .umem [dbrPtr.block.id] c.umemDbr.destroy).addFds
      (c.umemDbr.leaks (QpCalls.mregDbr env a h)).toNat
    have hfail := finishQp_failed a c h uar hgrown hattr hfds hptr hdbr
      (by simpa [QpCalls.finishes, hmakes, Bool.and_assoc] using hb)
    rw [QpCalls.mregDbr] at hmakes
    rw [createGpuUmem_makes hmakes]
    refine ⟨hfail.status, hfail.out, hfail.ends.congr ?_⟩
    simp [QpCalls.finishes, QpCalls.mregDbr, hmakes, and_assoc, World.fresh]
  · rw [Bool.not_eq_true] at hmakes
    have hends := ends_cleanup_dbr [attr, umem] [] (x := freeDbr h dbrPtr)
      (hw.addFds (c.umemDbr.leaks (QpCalls.mregDbr env a h)).toNat) hfds hptr hdbr (by grind)
    have hno : c.finishes env a h = false := by simp [QpCalls.finishes, hmakes]
    have hmreg : c.umemDbr.makes (env.mreg (dbrOnHost h a.sendDbrModeExt)) = false := hmakes
    rw [createGpuUmem_fails hmreg]
    by_cases hother : env.mreg (dbrOnHost h a.sendDbrModeExt) = .other
    · rw [if_pos hother]
      exact ⟨rfl, rfl, hends.congr (by simp [hno, hmakes, hattr])⟩
    · rw [if_neg hother]
      exact ⟨rfl, rfl, hends.congr (by simp [hno, hmakes, hattr])⟩

variable (env uar ptr dbrPtr h c a) in
theorem registerDbr_built (hw : w.Grown w' [dbr, umem, block, attr]) (hattr : attr.goes = true)
    (hb : (c.finishes env a h && c.attrDestroy) = true) :
    ∃ (qp umemDbr : Res) (w'' : World), registerDbr env a h attr uar umem ptr dbrPtr c w' =
        ⟨.success, ⟨qp, umem, ptr, umemDbr, dbrPtr, h⟩, w''⟩ ∧
      w.Grown w'' [qp, umem, block, umemDbr, dbr] ∧
      w''.openFds = w'.openFds + (c.umemDbr.leaks (QpCalls.mregDbr env a h)).toNat ∧
      (qp.kind = .qp ∧ ∃ cq ∈ a.cqSq, qp.refs = [uar.id, umem.id, umemDbr.id, cq.id]) ∧
      (umemDbr.kind = .umem ∧ umemDbr.refs = [dbrPtr.block.id]) ∧
      qp.goes = c.destroy ∧ umemDbr.goes = c.umemDbr.destroy := by
  simp only [QpCalls.finishes, Bool.and_eq_true] at hb
  obtain ⟨⟨⟨⟨hmakes, hcq⟩, hset⟩, hcreate⟩, hdestroy⟩ := hb
  have hgrown := (hw.acquire .umem [dbrPtr.block.id] c.umemDbr.destroy).addFds
    (c.umemDbr.leaks (QpCalls.mregDbr env a h)).toNat
  obtain ⟨qp, w'', heq, hw'', hfds, hqp, hgoes⟩ := finishQp_built a c h uar ptr dbrPtr
    hgrown hattr (by simp [hcq, hset, hcreate, hdestroy])
  refine ⟨qp, w'.fresh .umem [dbrPtr.block.id] c.umemDbr.destroy, w'', ?_, hw'', hfds, hqp,
    ⟨rfl, rfl⟩, hgoes, rfl⟩
  unfold registerDbr
  rw [QpCalls.mregDbr] at hmakes
  rw [createGpuUmem_makes hmakes]
  exact heq

theorem block_id (r : Res) : r.block.id = r.id := by
  unfold Res.block
  split_ifs <;> rfl

theorem devPtr_id (env : Env) (r : Res) : (env.devPtr r).id = r.id := by
  unfold Env.devPtr
  split_ifs <;> rfl

instance (env : Env) (a : QpArgs) (h : NicHandler) : Decidable (QpCalls.FreesDbr env a h) := by
  unfold QpCalls.FreesDbr
  infer_instance

theorem freesDbr_host (hhost : dbrOnHost h a.sendDbrModeExt = true) :
    QpCalls.FreesDbr env a h ↔ h = .cpuProxy := by
  simp [QpCalls.FreesDbr, hhost]

/-- The pointer to the doorbell record: the teardown can free it if it is on the host or keyed. -/
structure DbrPtr (env : Env) (a : QpArgs) (h : NicHandler) (dbr dbrPtr : Res) : Prop where
  block : dbrPtr.block.id = dbr.id
  tear : tearDbr h a.sendDbrModeExt dbrPtr =
    if env.Keyed ∨ dbrOnHost h a.sendDbrModeExt = true then dbr else .stray

variable (env uar ptr) in
/-- With a doorbell record, `create_qp` goes on to register it. -/
theorem allocDbr_has (hw : w.Grown w' [umem, block, attr]) (hhas : c.hasDbr a h = true) :
    ∃ (dbr dbrPtr : Res) (w'' : World),
      allocDbr env a h attr uar umem ptr c w' = registerDbr env a h attr uar umem ptr dbrPtr c w'' ∧
      w.Grown w'' [dbr, umem, block, attr] ∧ w''.openFds = w'.openFds ∧
      freeDbr h dbrPtr = (if QpCalls.FreesDbr env a h then dbr else .stray) ∧
      DbrPtr env a h dbr dbrPtr ∧
      (dbr.kind = (if dbrOnHost h a.sendDbrModeExt then .host else .gpuMem) ∧ dbr.refs = []) ∧
      dbr.goes = c.dbrGoes a h := by
  unfold allocDbr
  unfold QpCalls.hasDbr at hhas
  by_cases hhost : dbrOnHost h a.sendDbrModeExt = true
  · rw [if_pos hhost] at hhas
    refine ⟨w'.fresh .host [] true, w'.fresh .host [] true, w'.acquire .host [] true, ?_,
      hw.acquire _ _ _, rfl, ?_, ⟨block_id _, ?_⟩, ⟨?_, rfl⟩, ?_⟩
    · simp [hhost, hhas]
    · simp only [freesDbr_host hhost, freeDbr]
      by_cases hproxy : h = .cpuProxy <;> simp [hproxy, free, memFree, World.fresh]
    · simp [tearDbr, hhost, free, World.fresh]
    · simp [hhost, World.fresh]
    · simp [QpCalls.dbrGoes, hhost, World.fresh]
  · rw [if_neg hhost, decide_eq_true_eq] at hhas
    refine ⟨w'.fresh .gpuMem [] c.memFreeDbr, env.devPtr (w'.fresh .gpuMem [] c.memFreeDbr),
      w'.acquire .gpuMem [] c.memFreeDbr, ?_, hw.acquire _ _ _, rfl, ?_,
      ⟨(block_id _).trans (devPtr_id _ _), ?_⟩, ⟨?_, rfl⟩, ?_⟩
    · simp [hhost, hhas]
    · have hproxy : h ≠ .cpuProxy := fun hp => hhost (by simp [dbrOnHost, hp])
      simp [freeDbr, QpCalls.FreesDbr, hproxy, hhost, memFree_devPtr]
    · simp [tearDbr, hhost, memFree_devPtr]
    · simp [hhost, World.fresh]
    · simp [QpCalls.dbrGoes, hhost, World.fresh]

variable (uar c) in
/-- Without one it is at its exit: with the status of the call before if `calloc` failed, -/
theorem allocDbr_calloc (hw : w.Grown w' [umem, block, attr]) (hattr : attr.goes = true)
    (hfd : w'.openFds = w.openFds + n)
    (hptr : memFree ptr = if env.Keyed then block else .stray)
    (hhost : dbrOnHost h a.sendDbrModeExt = true) (hno : c.callocDbr = false) :
    QpFails w (allocDbr env a h attr uar umem ptr c w') .success
      (env.Keyed ∧ n = 0 ∧ umem.goes = true ∧ block.goes = true) := by
  have hends := ends_cleanup [attr, umem] hw hfd hptr (by grind)
  unfold allocDbr
  simp only [hhost, hno, Bool.not_false, if_true]
  exact ⟨rfl, rfl, hends.congr (by simp [hattr])⟩

variable (env uar) in
/-- and with the ring freed twice, or a pointer freed that was never set, if `doca_gpu_mem_alloc`
did. -/
theorem allocDbr_spoils (hw : w.Grown w' [umem, block, attr]) (hfd : w'.openFds = w.openFds + n)
    (hptr : memFree ptr = if env.Keyed then block else .stray)
    (hhost : dbrOnHost h a.sendDbrModeExt = false) (hno : c.allocDbr ≠ .ok) :
    QpFails w (allocDbr env a h attr uar umem ptr c w') .error False := by
  have hproxy : h ≠ .cpuProxy := by
    rintro rfl
    cases hhost
  unfold allocDbr
  cases hdbr : c.allocDbr with
  | ok => exact absurd hdbr hno
  | fails =>
    refine ⟨by simp [hhost, QpLocals.destroyResources], by simp [hhost, QpLocals.destroyResources],
      ?_⟩
    simp only [hhost, Bool.false_eq_true, if_false]
    refine ends_spoiled id hw hfd ?_
    by_cases hk : env.Keyed
    · refine hw.spoils_twice (r := block) (by simp) ?_
      simp only [QpLocals.cleanup, hproxy, hptr, hk, Option.toList_some, List.map_cons,
        List.map_nil, if_false, if_true]
      grind
    · refine hw.spoils_stray ?_
      simp [QpLocals.cleanup, hptr, hk]
  | entryLost =>
    refine ⟨by simp [hhost, QpLocals.destroyResources], by simp [hhost, QpLocals.destroyResources],
      ?_⟩
    simp only [hhost, Bool.false_eq_true, if_false]
    refine ends_spoiled id hw hfd (hw.spoils_stray ?_)
    simp [QpLocals.cleanup, hproxy, memFree, Res.stray]

/-! ### Failures from the ring on -/

/-- What `create_qp` leaves when it makes no QP. -/
structure QpFailed (env : Env) (a : QpArgs) (c : QpCalls) (w : World) (m : Made QpOut) : Prop where
  out : m.out = .null
  status : m.status = .success ↔ c.callocFails env a = true
  ends : Ends w m.world (c.Clean env a)

/-- The ring is not allocated. -/
theorem allocRing_none (env : Env) (a : QpArgs) (h : NicHandler) (uar : Res)
    (hw : w.Grown w' [attr]) (hattr : attr.goes = true) (hfd : w'.openFds = w.openFds)
    (hne : c.alloc ≠ .ok) :
    QpFails w (allocRing env a h attr uar c w') .error (c.CleanFrom env a h) := by
  unfold allocRing
  cases halloc : c.alloc with
  | fails =>
    refine ⟨rfl, rfl, ?_⟩
    refine (ends_exit (p := c.slotNull = true) (n := 0) hw hfd (fun hp => ?_) fun hp => ?_).congr ?_
    · simp [QpLocals.cleanup, hp]
    · simp [QpLocals.cleanup, hp, memFree, Res.stray]
    · simp [QpCalls.cleanFrom_iff, QpCalls.creates, QpCalls.reachesDbr, halloc, hattr]
  | entryLost =>
    refine ⟨rfl, rfl, ?_⟩
    refine ends_spoiled (n := 0) (fun hc => hc.entry halloc) hw hfd (hw.spoils_stray ?_)
    simp [QpLocals.cleanup, memFree, Res.stray]
  | ok => exact absurd halloc hne

/-- The ring is allocated, but not registered. -/
theorem allocRing_unregistered (env : Env) (a : QpArgs) (h : NicHandler) (uar : Res)
    (hw : w.Grown w' [attr]) (hattr : attr.goes = true) (hfd : w'.openFds = w.openFds)
    (halloc : c.alloc = .ok) (hno : c.reachesDbr env = false) :
    QpFails w (allocRing env a h attr uar c w') .error (c.CleanFrom env a h) := by
  have hptr := memFree_devPtr env w' [] c.memFree
  have hblock := hw.acquire .gpuMem [] c.memFree
  unfold allocRing
  simp only [halloc]
  cases hmakes : c.umem.makes (env.mreg false) with
  | true =>
    have hset : c.setUmem = false := by simpa [QpCalls.reachesDbr, halloc, hmakes] using hno
    have hgrown := (hblock.acquire .umem [(w'.fresh .gpuMem [] c.memFree).id]
      c.umem.destroy).addFds (c.umem.leaks (env.mreg false)).toNat
    have hends := ends_cleanup [attr, World.fresh .umem [(w'.fresh .gpuMem [] c.memFree).id]
      c.umem.destroy (w'.acquire .gpuMem [] c.memFree)] hgrown (congrArg (· + _) hfd) hptr
      (by grind)
    simp only [createGpuUmem_makes hmakes, hset, Bool.not_false, if_true]
    refine ⟨rfl, rfl, hends.congr ?_⟩
    simp [QpCalls.cleanFrom_iff, QpCalls.creates, QpCalls.reachesDbr, halloc, hset, hmakes, hattr,
      World.fresh, and_comm]
  | false =>
    have hends := ends_cleanup [attr] (hblock.addFds (c.umem.leaks (env.mreg false)).toNat)
      (congrArg (· + _) hfd) hptr (by grind)
    have hclean : c.CleanFrom env a h ↔ env.Keyed ∧ (c.umem.leaks (env.mreg false)).toNat = 0 ∧
        ∀ r ∈ [w'.fresh .gpuMem [] c.memFree, attr], r.goes = true := by
      simp [QpCalls.cleanFrom_iff, QpCalls.creates, QpCalls.reachesDbr, halloc, hmakes, hattr,
        World.fresh]
    simp only [createGpuUmem_fails hmakes]
    by_cases hother : env.mreg false = .other
    · simp only [if_pos hother]
      exact ⟨rfl, rfl, hends.congr hclean⟩
    · simp only [if_neg hother]
      exact ⟨rfl, rfl, hends.congr hclean⟩

/-- The ring is registered: `create_qp` goes on to the doorbell record. -/
theorem allocRing_registered (env : Env) (a : QpArgs) (h : NicHandler) (uar : Res)
    (hw : w.Grown w' [attr]) (hreach : c.reachesDbr env = true) :
    ∃ (umem block : Res) (w'' : World),
      allocRing env a h attr uar c w' = allocDbr env a h attr uar umem (env.devPtr block) c w'' ∧
      w.Grown w'' [umem, block, attr] ∧
      w''.openFds = w'.openFds + (c.umem.leaks (env.mreg false)).toNat ∧
      (umem.kind = .umem ∧ umem.refs = [block.id]) ∧ (block.kind = .gpuMem ∧ block.refs = []) ∧
      umem.goes = c.umem.destroy ∧ block.goes = c.memFree := by
  simp only [QpCalls.reachesDbr, Bool.and_eq_true, decide_eq_true_eq] at hreach
  obtain ⟨⟨halloc, hmakes⟩, hset⟩ := hreach
  have hgrown := ((hw.acquire .gpuMem [] c.memFree).acquire .umem
    [(w'.fresh .gpuMem [] c.memFree).id] c.umem.destroy).addFds
    (c.umem.leaks (env.mreg false)).toNat
  refine ⟨_, _, _, ?_, hgrown, rfl, ⟨rfl, rfl⟩, ⟨rfl, rfl⟩, rfl, rfl⟩
  unfold allocRing
  simp only [halloc, createGpuUmem_makes hmakes, hset, Bool.not_true, Bool.false_eq_true, if_false]

namespace QpCalls

/-- The condition where the ring is registered and there is a doorbell record. -/
theorem cleanFrom_of_hasDbr (hreach : c.reachesDbr env = true) (hhas : c.hasDbr a h = true)
    (hb : (c.finishes env a h && c.attrDestroy) = false) :
    c.CleanFrom env a h ↔ c.finishes env a h = false ∧ (env.Keyed ∧ FreesDbr env a h) ∧
      (c.umem.leaks (env.mreg false)).toNat + (c.umemDbr.leaks (mregDbr env a h)).toNat = 0 ∧
      (c.umemDbr.makes (mregDbr env a h) = true → c.umemDbr.destroy = true) ∧
      c.dbrGoes a h = true ∧ c.umem.destroy = true ∧ c.memFree = true := by
  have hring : c.alloc = .ok ∧ c.umem.makes (env.mreg false) = true := by
    simp only [reachesDbr, Bool.and_eq_true, decide_eq_true_eq] at hreach
    exact hreach.1
  have hok : dbrOnHost h a.sendDbrModeExt = false → c.allocDbr = .ok := by
    intro hhost
    simpa [hasDbr, hhost] using hhas
  have hcr : c.creates env a h = c.finishes env a h := by simp [creates, hreach, hhas]
  rw [cleanFrom_iff, hring.1, hring.2, hreach, hhas, hcr, Nat.add_eq_zero_iff, Bool.toNat_eq_zero,
    Bool.toNat_eq_zero]
  constructor
  · rintro ⟨-, -, hk, hl, -, hf, hl', honce, hfree, hdereg, hgoes, hdereg'⟩
    refine ⟨?_, ⟨hk rfl, hf rfl rfl⟩, ⟨hl rfl, hl' rfl rfl⟩, hdereg' rfl rfl, hgoes rfl rfl,
      hdereg rfl rfl, hfree rfl⟩
    by_contra hfin
    rw [Bool.not_eq_false] at hfin
    simp [hfin, honce hfin] at hb
  · rintro ⟨hfin, ⟨hk, hf⟩, ⟨hl, hl'⟩, hdereg', hgoes, hdereg, hfree⟩
    refine ⟨nofun, nofun, fun _ => hk, fun _ => hl, fun _ => hok, fun _ _ => hf, fun _ _ => hl', ?_,
      fun _ => hfree, fun _ _ => hdereg, fun _ _ => hgoes, fun _ _ => hdereg'⟩
    simp [hfin]

/-- The condition where there is none because `calloc` failed. -/
theorem cleanFrom_of_calloc (hreach : c.reachesDbr env = true)
    (hhost : dbrOnHost h a.sendDbrModeExt = true) (hno : c.callocDbr = false) :
    c.CleanFrom env a h ↔ env.Keyed ∧ (c.umem.leaks (env.mreg false)).toNat = 0 ∧
      c.umem.destroy = true ∧ c.memFree = true := by
  have hring : c.alloc = .ok ∧ c.umem.makes (env.mreg false) = true := by
    simp only [reachesDbr, Bool.and_eq_true, decide_eq_true_eq] at hreach
    exact hreach.1
  have hhas : c.hasDbr a h = false := by simp [hasDbr, hhost, hno]
  have hcr : c.creates env a h = false := by simp [creates, hhas]
  simp [cleanFrom_iff, hring.1, hring.2, hhas, hcr, hhost, and_comm]

end QpCalls

variable (env a c h uar) in
theorem allocRing_failed (hw : w.Grown w' [attr]) (hattr : attr.goes = true)
    (hfd : w'.openFds = w.openFds) (hb : (c.creates env a h && c.attrDestroy) = false) :
    ∃ status, QpFails w (allocRing env a h attr uar c w') status (c.CleanFrom env a h) ∧
      (status = .success ↔
        (c.reachesDbr env && dbrOnHost h a.sendDbrModeExt && !c.callocDbr) = true) := by
  cases hreach : c.reachesDbr env with
  | false =>
    refine ⟨.error, ?_, by simp⟩
    by_cases halloc : c.alloc = .ok
    · exact allocRing_unregistered env a h uar hw hattr hfd halloc hreach
    · exact allocRing_none env a h uar hw hattr hfd halloc
  | true =>
    obtain ⟨umem, block, w'', heq, hgrown, hfds, -, ⟨hkind, -⟩, hugoes, hbgoes⟩ :=
      allocRing_registered env a h uar hw hreach
    have hptr := memFree_devPtr_of_gpuMem env hkind
    have hfd' : w''.openFds = w.openFds + _ := hfds.trans (congrArg (· + _) hfd)
    rw [heq]
    cases hhas : c.hasDbr a h with
    | true =>
      have hfin : (c.finishes env a h && c.attrDestroy) = false := by
        simpa [QpCalls.creates, hreach, hhas] using hb
      obtain ⟨dbr, dbrPtr, w₁, heq₁, hw₁, hfd₁, hdbr, -, -, hdgoes⟩ :=
        allocDbr_has env uar (env.devPtr block) hgrown hhas
      have hfail := registerDbr_failed c uar hw₁ hattr (hfd₁.trans hfd') hptr hdbr hfin
      rw [heq₁]
      refine ⟨.error, ⟨hfail.status, hfail.out, hfail.ends.congr ?_⟩, ?_⟩
      · rw [QpCalls.cleanFrom_of_hasDbr hreach hhas hfin]
        simp [hdgoes, hugoes, hbgoes]
      · cases hhost : dbrOnHost h a.sendDbrModeExt with
        | false => simp
        | true =>
          have hcalloc : c.callocDbr = true := by simpa [QpCalls.hasDbr, hhost] using hhas
          simp [hcalloc]
    | false =>
      cases hhost : dbrOnHost h a.sendDbrModeExt with
      | true =>
        have hno : c.callocDbr = false := by simpa [QpCalls.hasDbr, hhost] using hhas
        have hfail := allocDbr_calloc c uar hgrown hattr hfd' hptr hhost hno
        refine ⟨.success, ⟨hfail.status, hfail.out, hfail.ends.congr ?_⟩, by simp [hno]⟩
        rw [QpCalls.cleanFrom_of_calloc hreach hhost hno, hugoes, hbgoes]
      | false =>
        have hno : c.allocDbr ≠ .ok := by simpa [QpCalls.hasDbr, hhost] using hhas
        have hfail := allocDbr_spoils env uar hgrown hfd' hptr hhost hno
        refine ⟨.error, ⟨hfail.status, hfail.out, hfail.ends.congr ?_⟩, by simp⟩
        exact iff_of_false (fun hc => hno (hc.allocDbr hreach hhost)) id

/-! ### Success -/

variable (env a c h uar) in
theorem allocRing_built (hw : w.Grown w' [attr]) (hattr : attr.goes = true)
    (hb : (c.creates env a h && c.attrDestroy) = true) :
    ∃ (qp umem block umemDbr dbr dbrPtr : Res) (w'' : World),
      allocRing env a h attr uar c w' =
        ⟨.success, ⟨qp, umem, env.devPtr block, umemDbr, dbrPtr, h⟩, w''⟩ ∧
      w.Grown w'' [qp, umem, block, umemDbr, dbr] ∧
      w''.openFds = w'.openFds + (c.umem.leaks (env.mreg false)).toNat +
        (c.umemDbr.leaks (QpCalls.mregDbr env a h)).toNat ∧
      freeDbr h dbrPtr = (if QpCalls.FreesDbr env a h then dbr else .stray) ∧
      DbrPtr env a h dbr dbrPtr ∧
      (qp.kind = .qp ∧ ∃ cq ∈ a.cqSq, qp.refs = [uar.id, umem.id, umemDbr.id, cq.id]) ∧
      ((umem.kind = .umem ∧ umem.refs = [block.id]) ∧ (block.kind = .gpuMem ∧ block.refs = []) ∧
        (umemDbr.kind = .umem ∧ umemDbr.refs = [dbr.id]) ∧
        dbr.kind = (if dbrOnHost h a.sendDbrModeExt then .host else .gpuMem) ∧ dbr.refs = []) ∧
      QpGoes c a h qp umem block umemDbr dbr := by
  simp only [Bool.and_eq_true, QpCalls.creates] at hb
  obtain ⟨⟨⟨hreach, hhas⟩, hfin⟩, hdestroy⟩ := hb
  obtain ⟨umem, block, w₁, heq, hw₁, hfd₁, humem, hblock, hugoes, hbgoes⟩ :=
    allocRing_registered env a h uar hw hreach
  obtain ⟨dbr, dbrPtr, w₂, heq₂, hw₂, hfd₂, hdbr, hid, hdkind, hdgoes⟩ :=
    allocDbr_has env uar (env.devPtr block) hw₁ hhas
  obtain ⟨qp, umemDbr, w₃, heq₃, hw₃, hfd₃, hqp, ⟨hukind, hurefs⟩, hqgoes, hugoes'⟩ :=
    registerDbr_built env a c h uar (env.devPtr block) dbrPtr hw₂ hattr (by simp [hfin, hdestroy])
  refine ⟨qp, umem, block, umemDbr, dbr, dbrPtr, w₃, ?_, hw₃, ?_, hdbr, hid, hqp,
    ⟨humem, hblock, ⟨hukind, hid.block ▸ hurefs⟩, hdkind⟩, hqgoes, hugoes, hbgoes, hugoes', hdgoes⟩
  · rw [heq, heq₂, heq₃]
  · rw [hfd₃, hfd₂, hfd₁]

end Qp

/-- Where `create_qp` goes on to the ring. -/
theorem createQp_handler {c : QpCalls} {a : QpArgs} {h : NicHandler} (env : Env) (w : World)
    (hh : c.handler a = some h) :
    ∃ uar ∈ a.externalUar,
      createQp env a c w =
        allocRing env a h (w.fresh .qpInitAttr [] true) uar c (w.acquire .qpInitAttr [] true) := by
  unfold QpCalls.handler at hh
  split at hh
  · rename_i hgo
    simp only [Bool.and_eq_true] at hgo
    obtain ⟨⟨hattr, huar⟩, hset⟩ := hgo
    obtain ⟨uar, huar⟩ := Option.isSome_iff_exists.1 huar
    refine ⟨uar, huar, ?_⟩
    unfold createQp
    simp only [hattr, huar, hset, Bool.not_true, Bool.false_eq_true, if_false]
    by_cases hauto : a.reqNicHandler = .auto
    · rw [if_pos hauto] at hh
      obtain ⟨canRegister, hcan, rfl⟩ := Option.map_eq_some_iff.1 hh
      rw [if_pos hauto, hcan]
    · rw [if_neg hauto] at hh ⊢
      rw [Option.some.inj hh]
  · cases hh

/-- Before that nothing but the attributes is held. -/
theorem createQp_none {c : QpCalls} {a : QpArgs} (env : Env) (w : World) (hh : c.handler a = none) :
    QpFails w (createQp env a c w) .error True := by
  have hexit : Ends w
      ((w.acquire .qpInitAttr [] true).releaseAll [w.fresh .qpInitAttr [] true]) True :=
    (ends_exit (p := True) (n := 0) ((World.Grown.refl w).acquire .qpInitAttr [] true) rfl
      (fun _ => .refl _) fun h => absurd trivial h).congr (by simp [World.fresh])
  unfold createQp
  by_cases hattr : c.attr = true
  swap
  · simp only [hattr, Bool.not_false, if_true]
    exact ⟨rfl, rfl, .refl w, fun _ => ⟨.refl w, rfl⟩, fun h => absurd trivial h⟩
  simp only [hattr, Bool.not_true, Bool.false_eq_true, if_false]
  cases huar : a.externalUar with
  | none => exact ⟨rfl, rfl, hexit⟩
  | some uar =>
    by_cases hset : c.setUar = true
    swap
    · simp only [hset, Bool.not_false, if_true]
      exact ⟨rfl, rfl, hexit⟩
    have hgo : (c.attr && a.externalUar.isSome && c.setUar) = true := by simp [hattr, huar, hset]
    rw [QpCalls.handler, if_pos hgo] at hh
    by_cases hauto : a.reqNicHandler = .auto
    · rw [if_pos hauto, Option.map_eq_none_iff] at hh
      simp only [hset, hauto, hh, Bool.not_true, Bool.false_eq_true, if_false, if_true]
      exact ⟨rfl, rfl, hexit⟩
    · rw [if_neg hauto] at hh
      cases hh

theorem createQp_failed (env : Env) (a : QpArgs) (c : QpCalls) (w : World)
    (hb : c.built env a = false) : QpFailed env a c w (createQp env a c w) := by
  cases hh : c.handler a with
  | none =>
    have hfail := createQp_none env w hh
    refine ⟨hfail.out, ?_, hfail.ends.congr ?_⟩
    · simp [hfail.status, QpCalls.callocFails, hh]
    · simp [QpCalls.Clean, hh]
  | some h =>
    obtain ⟨uar, -, heq⟩ := createQp_handler env w hh
    obtain ⟨status, hfail, hstatus⟩ := allocRing_failed env a c h uar
      ((World.Grown.refl w).acquire .qpInitAttr [] true) rfl rfl (by
        simpa [QpCalls.built, hh] using hb)
    rw [heq]
    refine ⟨hfail.out, ?_, hfail.ends.congr ?_⟩
    · rw [hfail.status, hstatus]
      simp [QpCalls.callocFails, hh]
    · simp [QpCalls.Clean, hh]

/-- The QP that `create_qp` makes. -/
theorem createQp_built (env : Env) (a : QpArgs) (c : QpCalls) (w : World)
    (hb : c.built env a = true) :
    ∃ (h : NicHandler) (qp umem block umemDbr dbr dbrPtr : Res) (w' : World),
      c.handler a = some h ∧
      createQp env a c w = ⟨.success, ⟨qp, umem, env.devPtr block, umemDbr, dbrPtr, h⟩, w'⟩ ∧
      w.Grown w' [qp, umem, block, umemDbr, dbr] ∧
      w'.openFds = w.openFds + (c.umem.leaks (env.mreg false)).toNat +
        (c.umemDbr.leaks (QpCalls.mregDbr env a h)).toNat ∧
      freeDbr h dbrPtr = (if QpCalls.FreesDbr env a h then dbr else .stray) ∧
      DbrPtr env a h dbr dbrPtr ∧ QpParts a h qp umem block umemDbr dbr ∧
      QpGoes c a h qp umem block umemDbr dbr := by
  obtain ⟨h, hh, hcreates⟩ := (Option.any_eq_true _ _).1 hb
  obtain ⟨uar, huar, heq⟩ := createQp_handler env w hh
  obtain ⟨qp, umem, block, umemDbr, dbr, dbrPtr, w', heq', hw', hfds, hdbr, hid, hqp, hparts,
      hgoes⟩ :=
    allocRing_built env a c h uar
      ((World.Grown.refl w).acquire .qpInitAttr [] true) rfl hcreates
  obtain ⟨hkind, cq, hcq, hrefs⟩ := hqp
  refine ⟨h, qp, umem, block, umemDbr, dbr, dbrPtr, w', hh, heq.trans heq', hw', hfds, hdbr, hid,
    ?_, hgoes⟩
  exact ⟨⟨hkind, uar, huar, cq, hcq, hrefs⟩, hparts.1, hparts.2.1, hparts.2.2.1, hparts.2.2.2⟩

end Gpunetio.Lifecycle
