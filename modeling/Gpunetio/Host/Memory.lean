import Gpunetio.Lib.Custody
import Gpunetio.Lib.Trace
import Mathlib.Algebra.Group.Nat.Defs
import Mathlib.Data.List.Nodup
import Mathlib.Logic.Function.Basic

/-!
# Memory the device can access

`doca_gpu_mem_alloc` builds a buffer of one of three types out of CUDA and host memory, host
registrations and GDRCopy mappings, and enters it in `mtable` under its device address;
`doca_gpu_mem_free` takes that address. Every call into CUDA, GDRCopy, the C library and the map may
fail; `malloc` and `calloc` blocks are always freed. The functions are those of the open library.

* `Resource`, `Mentry`, `AllocCuda`, `FreeCuda`: what is acquired, what is remembered of it, and the
  outcomes of the calls;
* `memAlloc`, `memFree`;
* `MemSys`, `MemSys.step`, `MemSys.Balanced`: a history of calls, and what should be held after it;
* `MemSys.Meets`: when a call keeps the balance; `MemSys.alloc_right`, `MemSys.free_right`;
* `allocBranch_none_over`, **`MemSys.memFree_insert_iff`**: when a failed allocation, or a free
  right after one that has succeeded, leaves the memory exactly as it was;
* **`MemSys.balance_iff`**; `MemSys.failed_mapping_leaks`.
-/

namespace Gpunetio

open Custody Trace

/-- `doca_gpu_mem_type`. -/
inductive MemType
  | gpu
  | gpuCpu
  | cpuGpu
deriving DecidableEq, Repr

/-- What a call acquires: a `cudaMalloc` block, a `calloc` block, the registration of a host
address, and the memory for the handle, the pinning and the mapping of GDRCopy. -/
inductive Resource
  | cudaBlock (p : ℕ)
  | hostBlock (p : ℕ)
  | registration (p : ℕ)
  | gdrHandle (mh : ℕ)
  | gdrPin (handle : ℕ)
  | gdrMap (va : ℕ)
deriving DecidableEq, Repr

/-- A GDRCopy mapping: the address of its handle, the handle, and the address it maps to. -/
structure GdrMapping where
  mh : ℕ
  handle : ℕ
  va : ℕ
deriving DecidableEq, Repr

/-- `doca_gpu_mtable`; `gdr` is what `gdr_mh` points to, if it is not null. -/
structure Mentry where
  mtype : MemType
  baseAddr : ℕ
  alignAddrGpu : ℕ
  alignAddrCpu : ℕ
  gdr : Option GdrMapping
deriving DecidableEq, Repr

/-- The outcomes of the calls an allocation can make; a pointer unless the call fails. -/
structure AllocCuda where
  cudaMalloc : Option ℕ
  setAttribute : Bool
  cudaFree : Bool
  gdrHandle : Option ℕ
  gdrInit : Bool
  gdrPin : Option ℕ
  gdrMap : Option ℕ
  gdrUnpin : Bool
  calloc : Option ℕ
  hostRegister : Bool
  devicePointer : Option ℕ
  hostUnregister : Bool
  insert : Bool
deriving DecidableEq, Repr

/-- The outcomes of the calls a `mem_free` can make. -/
structure FreeCuda where
  cudaFree : Bool
  gdrUnmap : Bool
  gdrUnpin : Bool
  hostUnregister : Bool
deriving DecidableEq, Repr

/-- The arguments of an allocation; `devNull` says that `gpu_dev` or its open part is null. -/
structure AllocArgs where
  devNull : Bool
  memptrGpuNull : Bool
  memptrCpuNull : Bool
  size : ℕ
  alignment : ℕ
  mtype : MemType
deriving DecidableEq, Repr

/-- `doca_error_t`, as far as these functions return it. -/
inductive MemError
  | success
  | invalidValue
  | driver
deriving DecidableEq, Repr

/-- `GPU_PAGE_SIZE`. -/
def gpuPageSize : ℕ := 2 ^ 16

/-- `priv_is_power_of_two`. -/
def privIsPowerOfTwo (x : ℕ) : Bool := x ≠ 0 ∧ x &&& (x - 1) = 0

/-- The next multiple of the alignment. -/
def alignUp (p alignment : ℕ) : ℕ :=
  if p % alignment = 0 then p else p + (alignment - p % alignment)

section Alloc

variable (alignment : ℕ) (cuda : AllocCuda) (s : Store Resource)

/-- The device block of the types `GPU` and `GPU_CPU`. -/
def allocDevice (mtype : MemType) : Option Mentry × Store Resource :=
  match cuda.cudaMalloc with
  | none => (none, s)
  | some p =>
    let s := s.acquire (.cudaBlock p)
    if cuda.setAttribute then (some ⟨mtype, p, alignUp p alignment, 0, none⟩, s)
    else (none, s.release (.cudaBlock p) cuda.cudaFree)

/-- `priv_doca_gpu_gdrcopy_create_mapping`: the handle and the host address. -/
def privGdrcopyCreateMapping : Option (ℕ × ℕ) × Store Resource :=
  if cuda.gdrInit = false then (none, s)
  else
    match cuda.gdrPin with
    | none => (none, s)
    | some handle =>
      let s := s.acquire (.gdrPin handle)
      match cuda.gdrMap with
      | none => (none, s.release (.gdrPin handle) cuda.gdrUnpin)
      | some va => (some (handle, va), s.acquire (.gdrMap va))

/-- `doca_gpu_gdrcopy_create_mapping`. -/
def gdrcopyCreateMapping : Option GdrMapping × Store Resource :=
  match cuda.gdrHandle with
  | none => (none, s)
  | some mh =>
    let r := privGdrcopyCreateMapping cuda (s.acquire (.gdrHandle mh))
    match r.1 with
    | none => (none, r.2.release (.gdrHandle mh) true)
    | some x => (some ⟨mh, x.1, x.2⟩, r.2)

/-- The type `GPU_CPU` with GDRCopy. -/
def allocGdr : Option Mentry × Store Resource :=
  let r := allocDevice alignment cuda s .gpuCpu
  match r.1 with
  | none => (none, r.2)
  | some m =>
    let r := gdrcopyCreateMapping cuda r.2
    match r.1 with
    | none => (none, r.2)
    | some g => (some { m with alignAddrCpu := g.va, gdr := some g }, r.2)

/-- The type `GPU_CPU` without GDRCopy: host memory in its place. -/
def allocFallback : Option Mentry × Store Resource :=
  match cuda.calloc with
  | none => (none, s)
  | some c =>
    let s := s.acquire (.hostBlock c)
    if cuda.hostRegister = false then (none, s.release (.hostBlock c) true)
    else
      let s := s.acquire (.registration c)
      match cuda.devicePointer with
      | none => (none, s.release (.hostBlock c) true)
      | some d => (some ⟨.gpuCpu, c, d, c, none⟩, s)

/-- The type `CPU_GPU`. -/
def allocHost : Option Mentry × Store Resource :=
  match cuda.calloc with
  | none => (none, s)
  | some c =>
    let s := s.acquire (.hostBlock c)
    let cpu := alignUp c alignment
    if cuda.hostRegister = false then (none, s.release (.hostBlock c) true)
    else
      let s := s.acquire (.registration cpu)
      match cuda.devicePointer with
      | none =>
        (none, (s.release (.registration cpu) cuda.hostUnregister).release (.hostBlock c) true)
      | some d => (some ⟨.cpuGpu, c, d, cpu, none⟩, s)

/-- The branch of each type; `gdrcopy` is `support_gdrcopy`. -/
def allocBranch (gdrcopy : Bool) : MemType → Option Mentry × Store Resource
  | .gpu => allocDevice alignment cuda s .gpu
  | .gpuCpu => if gdrcopy then allocGdr alignment cuda s else allocFallback cuda s
  | .cpuGpu => allocHost alignment cuda s

end Alloc

/-- The memory of a `gpu_dev`: its `mtable`, and the resources acquired through it. -/
structure GpuMem where
  mtable : ℕ → Option Mentry
  store : Store Resource

/-- The checks of `doca_gpu_mem_alloc` on its arguments. -/
def AllocArgs.valid (a : AllocArgs) (pageSize : ℕ) : Bool :=
  !a.devNull && !a.memptrGpuNull && !(a.mtype ≠ .gpu && a.memptrCpuNull) && a.size ≠ 0 &&
    privIsPowerOfTwo (if a.alignment = 0 then pageSize else a.alignment)

/-- The alignment used. -/
def AllocArgs.used (a : AllocArgs) (pageSize : ℕ) : ℕ :=
  if a.mtype = .gpuCpu then gpuPageSize else if a.alignment = 0 then pageSize else a.alignment

/-- `mtable->insert`: a key that is there keeps its entry. -/
def GpuMem.insert (g : GpuMem) (m : Mentry) : GpuMem :=
  { g with mtable :=
    if g.mtable m.alignAddrGpu = none then Function.update g.mtable m.alignAddrGpu (some m)
    else g.mtable }

/-- **`doca_gpu_mem_alloc`**: its status, `*memptr_gpu` and `*memptr_cpu` if they are written, and
the memory. -/
def memAlloc (gdrcopy : Bool) (pageSize : ℕ) (a : AllocArgs) (cuda : AllocCuda) (g : GpuMem) :
    MemError × Option (ℕ × ℕ) × GpuMem :=
  if a.valid pageSize = false then (.invalidValue, none, g)
  else
    let r := allocBranch (a.used pageSize) cuda g.store gdrcopy a.mtype
    match r.1 with
    | none => (.driver, none, { g with store := r.2 })
    | some m =>
      let g := { g with store := r.2 }
      if cuda.insert = false then (.driver, some (m.alignAddrGpu, m.alignAddrCpu), g)
      else (.success, some (m.alignAddrGpu, m.alignAddrCpu), g.insert m)

/-- `doca_gpu_gdrcopy_destroy_mapping`. -/
def gdrcopyDestroyMapping (gdr : Option GdrMapping) (cuda : FreeCuda) (s : Store Resource) :
    Store Resource :=
  match gdr with
  | none => s
  | some g =>
    s.releaseAll [(.gdrMap g.va, cuda.gdrUnmap), (.gdrPin g.handle, cuda.gdrUnpin),
      (.gdrHandle g.mh, true)]

/-- The release of an entry. -/
def releaseEntry (gdrcopy : Bool) (m : Mentry) (cuda : FreeCuda) (s : Store Resource) :
    Store Resource :=
  match m.mtype with
  | .gpu => s.release (.cudaBlock m.baseAddr) cuda.cudaFree
  | .gpuCpu =>
    let s := if gdrcopy then gdrcopyDestroyMapping m.gdr cuda s else s
    s.release (.cudaBlock m.baseAddr) cuda.cudaFree
  | .cpuGpu =>
    (s.release (.registration m.alignAddrCpu) cuda.hostUnregister).release
      (.hostBlock m.baseAddr) true

/-- **`doca_gpu_mem_free`**. -/
def memFree (gdrcopy : Bool) (devNull : Bool) (memptrGpu : ℕ) (cuda : FreeCuda) (g : GpuMem) :
    MemError × GpuMem :=
  if devNull = true ∨ memptrGpu = 0 then (.invalidValue, g)
  else
    match g.mtable memptrGpu with
    | none => (.invalidValue, g)
    | some m =>
      (.success,
        { mtable := Function.update g.mtable memptrGpu none
          store := releaseEntry gdrcopy m cuda g.store })

/-! ## Histories -/

/-- A call. -/
inductive MemEvent
  | memAlloc (a : AllocArgs) (cuda : AllocCuda)
  | memFree (devNull : Bool) (memptrGpu : ℕ) (cuda : FreeCuda)
deriving DecidableEq, Repr

/-- The memory, and the successful allocations that have not been freed: the GPU pointer of each and
what it acquired. -/
structure MemSys where
  mem : GpuMem
  allocs : List (ℕ × List Resource)

namespace MemSys

/-- **One call.** An allocation that succeeds owns what has come to be held. -/
def step (gdrcopy : Bool) (pageSize : ℕ) (s : MemSys) : MemEvent → MemSys
  | .memAlloc a cuda =>
    let r := Gpunetio.memAlloc gdrcopy pageSize a cuda s.mem
    { mem := r.2.2
      allocs := match r.1, r.2.1 with
        | .success, some p =>
          (p.1, r.2.2.store.held.take (r.2.2.store.held.length - s.mem.store.held.length)) ::
            s.allocs
        | _, _ => s.allocs }
  | .memFree devNull p cuda =>
    let r := Gpunetio.memFree gdrcopy devNull p cuda s.mem
    { mem := r.2
      allocs := if r.1 = .success then s.allocs.filter fun x => x.1 ≠ p else s.allocs }

/-- Nothing is allocated. -/
def empty : MemSys := ⟨⟨fun _ => none, Store.empty⟩, []⟩

/-- The ledger is balanced: `mtable` contains the successful allocations, what they acquired is held
and nothing else, and nothing has been released that was not held. -/
structure Balanced (s : MemSys) : Prop where
  keys : (s.allocs.map Prod.fst).Nodup
  mtable : ∀ p, s.mem.mtable p ≠ none ↔ p ∈ s.allocs.map Prod.fst
  holds : s.mem.store.Holds (s.allocs.flatMap Prod.snd)

/-- What a call should do: keep the balance, and free what is allocated. -/
def Right (gdrcopy : Bool) (pageSize : ℕ) (s : MemSys) (e : MemEvent) : Prop :=
  (s.step gdrcopy pageSize e).Balanced ∧
    match e with
    | .memAlloc .. => True
    | .memFree devNull p cuda => devNull = false → p ∈ s.allocs.map Prod.fst →
        (Gpunetio.memFree gdrcopy devNull p cuda s.mem).1 = .success

/-- The new entry has a key of its own and gets into the table. -/
def Enters (s : MemSys) (cuda : AllocCuda) (key : ℕ) : Prop :=
  cuda.insert = true ∧ s.mem.mtable key = none

/-- When an allocation of a type keeps the balance. -/
def AllocMeets (gdrcopy : Bool) (alignment : ℕ) (cuda : AllocCuda) (s : MemSys) : MemType → Prop
  | .gpu => ∀ p, cuda.cudaMalloc = some p →
      if cuda.setAttribute then s.Enters cuda (alignUp p alignment) else cuda.cudaFree = true
  | .gpuCpu =>
    if gdrcopy then ∀ p, cuda.cudaMalloc = some p →
      if cuda.setAttribute then
        (cuda.gdrHandle ≠ none ∧ cuda.gdrInit = true ∧ cuda.gdrPin ≠ none ∧ cuda.gdrMap ≠ none) ∧
          s.Enters cuda (alignUp p alignment)
      else cuda.cudaFree = true
    else cuda.calloc ≠ none → cuda.hostRegister = true →
      ∃ d, cuda.devicePointer = some d ∧ s.Enters cuda d
  | .cpuGpu => cuda.calloc ≠ none → cuda.hostRegister = true →
      match cuda.devicePointer with
      | none => cuda.hostUnregister = true
      | some d => s.Enters cuda d

/-- When a release keeps the balance. -/
def FreeMeets (gdrcopy : Bool) (cuda : FreeCuda) : MemType → Prop
  | .gpu => cuda.cudaFree = true
  | .gpuCpu => gdrcopy = true ∧ cuda.gdrUnmap = true ∧ cuda.gdrUnpin = true ∧ cuda.cudaFree = true
  | .cpuGpu => cuda.hostUnregister = true

/-- When a call keeps the balance. -/
def Meets (gdrcopy : Bool) (pageSize : ℕ) (s : MemSys) : MemEvent → Prop
  | .memAlloc a cuda =>
    a.valid pageSize = true → AllocMeets gdrcopy (a.used pageSize) cuda s a.mtype
  | .memFree devNull p cuda =>
    devNull = false → ∀ m, s.mem.mtable p = some m → p ≠ 0 ∧ FreeMeets gdrcopy cuda m.mtype

end MemSys

/-- What the allocation of an entry acquired, newest first. -/
def Mentry.resources (gdrcopy : Bool) (m : Mentry) : List Resource :=
  match m.mtype with
  | .gpu => [.cudaBlock m.baseAddr]
  | .gpuCpu =>
    if gdrcopy then
      (m.gdr.elim [] fun g => [.gdrMap g.va, .gdrPin g.handle, .gdrHandle g.mh]) ++
        [.cudaBlock m.baseAddr]
    else [.registration m.alignAddrCpu, .hostBlock m.baseAddr]
  | .cpuGpu => [.registration m.alignAddrCpu, .hostBlock m.baseAddr]

/-- What the release of an entry releases, and with what outcomes; an entry of the type `GPU_CPU` is
released as if its block were one of the device. -/
def Mentry.releases (cuda : FreeCuda) (m : Mentry) : List (Resource × Bool) :=
  match m.mtype with
  | .gpu => [(.cudaBlock m.baseAddr, cuda.cudaFree)]
  | .gpuCpu =>
    (m.gdr.elim [] fun g => [(.gdrMap g.va, cuda.gdrUnmap), (.gdrPin g.handle, cuda.gdrUnpin),
      (.gdrHandle g.mh, true)]) ++ [(.cudaBlock m.baseAddr, cuda.cudaFree)]
  | .cpuGpu => [(.registration m.alignAddrCpu, cuda.hostUnregister), (.hostBlock m.baseAddr, true)]

section Branch

variable {alignment : ℕ} {cuda : AllocCuda} {s : Store Resource} {l : List Resource}
  {gdrcopy : Bool} {mtype : MemType} (sys : MemSys) {m : Mentry}

theorem resources_ne_nil : m.resources gdrcopy ≠ [] := by
  unfold Mentry.resources
  cases m.mtype <;> cases gdrcopy <;> simp

/-- An allocation that fails may leave something behind: nothing exactly if it meets its condition.
-/
def Leaves (l : List Resource) (met : Prop) (s : Store Resource) : Prop :=
  ∃ leak, s.Holds (leak ++ l) ∧ (met ↔ leak = [])

/-- The same of what has come to be held in front of what was. -/
def LeavesOver (s : Store Resource) (met : Prop) (s' : Store Resource) : Prop :=
  ∃ leak, s' = s.acquireAll leak ∧ (met ↔ leak = [])

theorem LeavesOver.nothing {met : Prop} {s' : Store Resource} (h : s' = s) (hm : met) :
    LeavesOver s met s' :=
  ⟨[], h, fun _ => rfl, fun _ => hm⟩

theorem LeavesOver.something {met : Prop} {s' : Store Resource} (leak : List Resource)
    (h : s' = s.acquireAll leak) (hm : ¬ met) (hl : leak ≠ []) : LeavesOver s met s' :=
  ⟨leak, h, fun h => (hm h).elim, fun h => (hl h).elim⟩

/-- It meets its condition exactly if everything is as before. -/
theorem LeavesOver.eq_iff {met : Prop} {s' : Store Resource} (h : LeavesOver s met s') :
    s' = s ↔ met := by
  obtain ⟨leak, rfl, hmet⟩ := h
  rw [hmet, Store.acquireAll_eq_self]

theorem LeavesOver.leaves {met : Prop} {s' : Store Resource} (h : LeavesOver s met s')
    (hl : s.Holds l) : Leaves l met s' := by
  obtain ⟨leak, rfl, hmet⟩ := h
  exact ⟨leak, hl.acquireAll, hmet⟩

theorem allocDevice_some (hs : (allocDevice alignment cuda s mtype).1 = some m) :
    ∃ p, cuda.cudaMalloc = some p ∧ cuda.setAttribute = true ∧
      m = ⟨mtype, p, alignUp p alignment, 0, none⟩ ∧
      (allocDevice alignment cuda s mtype).2 = s.acquire (.cudaBlock p) := by
  unfold allocDevice at hs ⊢
  cases hm : cuda.cudaMalloc with
  | none => simp [hm] at hs
  | some p =>
    cases ha : cuda.setAttribute with
    | false => simp [hm, ha] at hs
    | true =>
      simp only [hm, ha, if_true, Option.some.injEq] at hs
      exact ⟨p, rfl, rfl, hs.symm, rfl⟩

/-- A mapping that fails leaves nothing but, at worst, a pinning that could not be undone. -/
theorem gdrcopyCreateMapping_none (hn : (gdrcopyCreateMapping cuda s).1 = none) :
    ∃ leak, (gdrcopyCreateMapping cuda s).2 = s.acquireAll leak := by
  unfold gdrcopyCreateMapping privGdrcopyCreateMapping at hn ⊢
  cases hh : cuda.gdrHandle with
  | none => exact ⟨[], rfl⟩
  | some mh =>
    cases hi : cuda.gdrInit with
    | false => exact ⟨[], Store.release_acquire _ true s⟩
    | true =>
      cases hp : cuda.gdrPin with
      | none => exact ⟨[], Store.release_acquire _ true s⟩
      | some handle =>
        cases hmap : cuda.gdrMap with
        | some va => simp [hh, hi, hp, hmap] at hn
        | none =>
          simp only [Bool.true_eq_false, if_false, Store.release_acquire]
          cases hu : cuda.gdrUnpin with
          | true => exact ⟨[], Store.release_acquire _ true s⟩
          | false =>
            have hrel := Store.release_acquireAll (s := s) (l := [.gdrPin handle])
              (x := .gdrHandle mh) (by simp)
            exact ⟨[.gdrPin handle], hrel⟩

theorem gdrcopyCreateMapping_some {g : GdrMapping}
    (hs : (gdrcopyCreateMapping cuda s).1 = some g) :
    (cuda.gdrHandle ≠ none ∧ cuda.gdrInit = true ∧ cuda.gdrPin ≠ none ∧ cuda.gdrMap ≠ none) ∧
      (gdrcopyCreateMapping cuda s).2 =
        ((s.acquire (.gdrHandle g.mh)).acquire (.gdrPin g.handle)).acquire (.gdrMap g.va) := by
  unfold gdrcopyCreateMapping privGdrcopyCreateMapping at hs ⊢
  cases hh : cuda.gdrHandle with
  | none => simp [hh] at hs
  | some mh =>
    cases hi : cuda.gdrInit with
    | false => simp [hh, hi] at hs
    | true =>
      cases hp : cuda.gdrPin with
      | none => simp [hh, hi, hp] at hs
      | some handle =>
        cases hmap : cuda.gdrMap with
        | none => simp [hh, hi, hp, hmap] at hs
        | some va =>
          simp only [hh, hi, hp, hmap, Bool.true_eq_false, if_false, Option.some.injEq] at hs
          subst hs
          simp

/-- A mapping that fails has not met its condition. -/
theorem mapped_of_ne_none (hh : cuda.gdrHandle ≠ none) (hi : cuda.gdrInit = true)
    (hp : cuda.gdrPin ≠ none) (hm : cuda.gdrMap ≠ none) :
    (gdrcopyCreateMapping cuda s).1 ≠ none := by
  obtain ⟨mh, hh⟩ := Option.ne_none_iff_exists'.1 hh
  obtain ⟨handle, hp⟩ := Option.ne_none_iff_exists'.1 hp
  obtain ⟨va, hm⟩ := Option.ne_none_iff_exists'.1 hm
  simp [gdrcopyCreateMapping, privGdrcopyCreateMapping, hh, hi, hp, hm]

/-! ### Branches that fail -/

/-- Without its attribute a device block is only to be freed again. -/
theorem allocDevice_none (hn : (allocDevice alignment cuda s mtype).1 = none) {met : ℕ → Prop} :
    LeavesOver s (∀ p, cuda.cudaMalloc = some p →
      if cuda.setAttribute then met p else cuda.cudaFree = true)
      (allocDevice alignment cuda s mtype).2 := by
  unfold allocDevice at hn ⊢
  cases hm : cuda.cudaMalloc with
  | none => exact .nothing rfl nofun
  | some p =>
    cases ha : cuda.setAttribute with
    | true => simp [hm, ha] at hn
    | false =>
      simp only [Bool.false_eq_true, if_false, Store.release_acquire]
      cases hf : cuda.cudaFree with
      | true => exact .nothing rfl fun _ _ => rfl
      | false => exact .something [.cudaBlock p] rfl (by simp) (by simp)

theorem allocGdr_none (hn : (allocGdr alignment cuda s).1 = none) :
    LeavesOver s (MemSys.AllocMeets true alignment cuda sys .gpuCpu)
      (allocGdr alignment cuda s).2 := by
  unfold allocGdr at hn ⊢
  cases hd : (allocDevice alignment cuda s .gpuCpu).1 with
  | none =>
    simp only [hd]
    exact allocDevice_none hd
  | some m =>
    -- the mapping fails, and the device block stays
    obtain ⟨p, hp, ha, rfl, hs⟩ := allocDevice_some hd
    simp only [hd] at hn ⊢
    cases hg : (gdrcopyCreateMapping cuda (allocDevice alignment cuda s .gpuCpu).2).1 with
    | some g => simp [hg] at hn
    | none =>
      obtain ⟨leak, hl⟩ := gdrcopyCreateMapping_none hg
      refine .something (leak ++ [.cudaBlock p]) ?_ ?_ (by simp)
      · rw [hl, hs]
        simp [Store.acquireAll, Store.acquire]
      · intro hm
        have hmap := hm p hp
        rw [if_pos ha] at hmap
        obtain ⟨hh, hi, hpin, hva⟩ := hmap.1
        exact mapped_of_ne_none hh hi hpin hva hg

theorem allocFallback_none (hn : (allocFallback cuda s).1 = none) :
    LeavesOver s (MemSys.AllocMeets false alignment cuda sys .gpuCpu) (allocFallback cuda s).2 := by
  simp only [allocFallback, Bool.false_eq_true, if_false, MemSys.AllocMeets] at hn ⊢
  cases hc : cuda.calloc with
  | none => exact .nothing rfl (by simp)
  | some c =>
    cases hr : cuda.hostRegister with
    | false => exact .nothing (Store.release_acquire _ true s) (by simp)
    | true =>
      cases hd : cuda.devicePointer with
      | some d => simp [hc, hr, hd] at hn
      | none =>
        -- the block is freed and its registration stays
        have hrel := Store.release_acquireAll (s := s) (l := [.registration c])
          (x := .hostBlock c) (by simp)
        exact .something [.registration c] hrel (by simp) (by simp)

theorem allocHost_none (hn : (allocHost alignment cuda s).1 = none) :
    LeavesOver s (MemSys.AllocMeets gdrcopy alignment cuda sys .cpuGpu)
      (allocHost alignment cuda s).2 := by
  simp only [allocHost, MemSys.AllocMeets] at hn ⊢
  cases hc : cuda.calloc with
  | none => exact .nothing rfl (by simp)
  | some c =>
    cases hr : cuda.hostRegister with
    | false => exact .nothing (Store.release_acquire _ true s) (by simp)
    | true =>
      cases hd : cuda.devicePointer with
      | some d => simp [hc, hr, hd] at hn
      | none =>
        simp only [Bool.true_eq_false, if_false, Store.release_acquire]
        cases hu : cuda.hostUnregister with
        | true => exact .nothing (Store.release_acquire _ true s) (by simp)
        | false =>
          have hrel := Store.release_acquireAll (s := s) (x := .hostBlock c)
            (l := [.registration (alignUp c alignment)]) (by simp)
          exact .something [.registration (alignUp c alignment)] hrel (by simp) (by simp)

/-- **A branch that fails** leaves everything as it was exactly if it meets its condition. -/
theorem allocBranch_none_over (hn : (allocBranch alignment cuda s gdrcopy mtype).1 = none) :
    LeavesOver s (MemSys.AllocMeets gdrcopy alignment cuda sys mtype)
      (allocBranch alignment cuda s gdrcopy mtype).2 := by
  cases mtype with
  | gpu => exact allocDevice_none hn
  | gpuCpu =>
    cases gdrcopy with
    | true => exact allocGdr_none sys hn
    | false => exact allocFallback_none sys hn
  | cpuGpu => exact allocHost_none sys hn

theorem allocBranch_none (h : s.Holds l)
    (hn : (allocBranch alignment cuda s gdrcopy mtype).1 = none) :
    Leaves l (MemSys.AllocMeets gdrcopy alignment cuda sys mtype)
      (allocBranch alignment cuda s gdrcopy mtype).2 :=
  (allocBranch_none_over sys hn).leaves h

/-! ### Branches that succeed -/

/-- An entry of the type `GPU_CPU` has a mapping where GDRCopy is used. -/
def Mentry.Mapped (gdrcopy : Bool) (m : Mentry) : Prop :=
  m.mtype = .gpuCpu → gdrcopy = true → m.gdr ≠ none

/-- What a branch that succeeds leaves: it has acquired the resources of its entry. -/
def Acquires (gdrcopy : Bool) (s : Store Resource) (m : Mentry) (s' : Store Resource) : Prop :=
  s' = { s with held := m.resources gdrcopy ++ s.held } ∧ m.Mapped gdrcopy

theorem allocGdr_some (hs : (allocGdr alignment cuda s).1 = some m) :
    Acquires true s m (allocGdr alignment cuda s).2 ∧
      (MemSys.AllocMeets true alignment cuda sys .gpuCpu ↔ sys.Enters cuda m.alignAddrGpu) := by
  unfold allocGdr at hs ⊢
  cases hd : (allocDevice alignment cuda s .gpuCpu).1 with
  | none => simp [hd] at hs
  | some m' =>
    obtain ⟨p, hp, ha, rfl, hdev⟩ := allocDevice_some hd
    simp only [hd] at hs ⊢
    cases hg : (gdrcopyCreateMapping cuda (allocDevice alignment cuda s .gpuCpu).2).1 with
    | none => simp [hg] at hs
    | some g =>
      obtain ⟨hmap, hst⟩ := gdrcopyCreateMapping_some hg
      rw [hg] at hs
      cases hs
      refine ⟨⟨?_, fun _ _ => by simp⟩, ?_⟩
      · rw [hst, hdev]
        rfl
      · simp [MemSys.AllocMeets, hp, ha, hmap]

theorem allocFallback_some (hs : (allocFallback cuda s).1 = some m) :
    Acquires false s m (allocFallback cuda s).2 ∧
      (MemSys.AllocMeets false alignment cuda sys .gpuCpu ↔ sys.Enters cuda m.alignAddrGpu) := by
  simp only [allocFallback, Bool.false_eq_true, if_false, MemSys.AllocMeets] at hs ⊢
  cases hc : cuda.calloc with
  | none => simp [hc] at hs
  | some c =>
    cases hr : cuda.hostRegister with
    | false => simp [hc, hr] at hs
    | true =>
      cases hd : cuda.devicePointer with
      | none => simp [hc, hr, hd] at hs
      | some d =>
        simp only [hc, hr, hd, Bool.true_eq_false, if_false, Option.some.injEq] at hs
        subst hs
        exact ⟨⟨rfl, fun _ => nofun⟩, by simp⟩

theorem allocHost_some (hs : (allocHost alignment cuda s).1 = some m) :
    Acquires gdrcopy s m (allocHost alignment cuda s).2 ∧
      (MemSys.AllocMeets gdrcopy alignment cuda sys .cpuGpu ↔ sys.Enters cuda m.alignAddrGpu) := by
  simp only [allocHost, MemSys.AllocMeets] at hs ⊢
  cases hc : cuda.calloc with
  | none => simp [hc] at hs
  | some c =>
    cases hr : cuda.hostRegister with
    | false => simp [hc, hr] at hs
    | true =>
      cases hd : cuda.devicePointer with
      | none => simp [hc, hr, hd] at hs
      | some d =>
        simp only [hc, hr, hd, Bool.true_eq_false, if_false, Option.some.injEq] at hs
        subst hs
        exact ⟨⟨rfl, nofun⟩, by simp⟩

/-- **A branch that succeeds** needs to enter its entry. -/
theorem allocBranch_some (hs : (allocBranch alignment cuda s gdrcopy mtype).1 = some m) :
    Acquires gdrcopy s m (allocBranch alignment cuda s gdrcopy mtype).2 ∧
      (MemSys.AllocMeets gdrcopy alignment cuda sys mtype ↔ sys.Enters cuda m.alignAddrGpu) := by
  cases mtype with
  | gpu =>
    obtain ⟨p, hp, ha, rfl, hst⟩ := allocDevice_some hs
    refine ⟨⟨hst, nofun⟩, ?_⟩
    simp [MemSys.AllocMeets, hp, ha]
  | gpuCpu =>
    cases gdrcopy with
    | true => exact allocGdr_some sys hs
    | false => exact allocFallback_some sys hs
  | cpuGpu => exact allocHost_some sys hs

/-- The entry is of the type asked for. -/
theorem allocBranch_mtype (hs : (allocBranch alignment cuda s gdrcopy mtype).1 = some m) :
    m.mtype = mtype := by
  cases mtype with
  | gpu =>
    obtain ⟨p, -, -, rfl, -⟩ := allocDevice_some hs
    rfl
  | gpuCpu =>
    cases gdrcopy with
    | true =>
      have hs : (allocGdr alignment cuda s).1 = some m := hs
      unfold allocGdr at hs
      cases hd : (allocDevice alignment cuda s .gpuCpu).1 with
      | none => simp [hd] at hs
      | some m' =>
        obtain ⟨p, -, -, rfl, -⟩ := allocDevice_some hd
        simp only [hd] at hs
        split at hs
        · cases hs
        · cases hs
          rfl
    | false =>
      have hs : (allocFallback cuda s).1 = some m := hs
      unfold allocFallback at hs
      split at hs
      · cases hs
      · split_ifs at hs
        split at hs <;> cases hs
        rfl
  | cpuGpu =>
    have hs : (allocHost alignment cuda s).1 = some m := hs
    unfold allocHost at hs
    split at hs
    · cases hs
    · split_ifs at hs
      split at hs <;> cases hs
      rfl

end Branch

namespace MemSys

variable {gdrcopy : Bool} {pageSize : ℕ} {s : MemSys}

/-- The balance, and what each entry of `mtable` owns. -/
structure Inv (gdrcopy : Bool) (s : MemSys) : Prop where
  balanced : s.Balanced
  entry : ∀ x ∈ s.allocs, ∃ m, s.mem.mtable x.1 = some m ∧ x.2 = m.resources gdrcopy ∧
    m.Mapped gdrcopy

/-- A failed call keeps the balance exactly if it leaves nothing behind. -/
theorem balanced_iff_leak (h : s.Balanced) {st : Store Resource} {leak : List Resource}
    (hl : st.Holds (leak ++ s.allocs.flatMap Prod.snd)) :
    Balanced ⟨{ s.mem with store := st }, s.allocs⟩ ↔ leak = [] := by
  constructor
  · intro hbal
    have hlen : (leak ++ s.allocs.flatMap Prod.snd).length = (s.allocs.flatMap Prod.snd).length :=
      hl.length_eq.symm.trans hbal.holds.length_eq
    rw [List.length_append] at hlen
    exact List.eq_nil_of_length_eq_zero (by omega)
  · rintro rfl
    exact ⟨h.keys, h.mtable, hl⟩

section Alloc

variable {a : AllocArgs} {cuda : AllocCuda}

/-- The branch an allocation takes. -/
abbrev branch (gdrcopy : Bool) (pageSize : ℕ) (a : AllocArgs) (cuda : AllocCuda) (s : MemSys) :
    Option Mentry × Store Resource :=
  allocBranch (a.used pageSize) cuda s.mem.store gdrcopy a.mtype

theorem step_alloc_invalid (hv : a.valid pageSize = false) :
    s.step gdrcopy pageSize (.memAlloc a cuda) = s := by
  simp [step, Gpunetio.memAlloc, hv]

theorem step_alloc_none (hv : a.valid pageSize = true)
    (hn : (s.branch gdrcopy pageSize a cuda).1 = none) :
    s.step gdrcopy pageSize (.memAlloc a cuda) =
      ⟨{ s.mem with store := (s.branch gdrcopy pageSize a cuda).2 }, s.allocs⟩ := by
  simp [step, Gpunetio.memAlloc, hv, hn]

theorem step_alloc_insert_fails (hv : a.valid pageSize = true) {m : Mentry}
    (hs : (s.branch gdrcopy pageSize a cuda).1 = some m) (hi : cuda.insert = false) :
    s.step gdrcopy pageSize (.memAlloc a cuda) =
      ⟨{ s.mem with store := (s.branch gdrcopy pageSize a cuda).2 }, s.allocs⟩ := by
  simp [step, Gpunetio.memAlloc, hv, hs, hi]

theorem step_alloc_some (hv : a.valid pageSize = true) {m : Mentry}
    (hs : (s.branch gdrcopy pageSize a cuda).1 = some m) (hi : cuda.insert = true) :
    s.step gdrcopy pageSize (.memAlloc a cuda) =
      ⟨GpuMem.insert ⟨s.mem.mtable, ⟨m.resources gdrcopy ++ s.mem.store.held,
          s.mem.store.misuse⟩⟩ m,
        (m.alignAddrGpu, m.resources gdrcopy) :: s.allocs⟩ := by
  have hb := (allocBranch_some s hs).1.1
  simp only [step, Gpunetio.memAlloc, hv, hs, hi, Bool.true_eq_false, if_false]
  simp [GpuMem.insert, hb]

/-- **An allocation keeps the balance exactly if it meets the condition.** -/
theorem alloc_right (h : s.Inv gdrcopy) :
    (s.step gdrcopy pageSize (.memAlloc a cuda)).Balanced ↔
      s.Meets gdrcopy pageSize (.memAlloc a cuda) := by
  have hb := h.balanced
  rw [Meets]
  cases hv : a.valid pageSize with
  | false =>
    rw [step_alloc_invalid hv]
    exact iff_of_true hb nofun
  | true =>
    rw [imp_iff_right rfl]
    cases hbr : (s.branch gdrcopy pageSize a cuda).1 with
    | none =>
      rw [step_alloc_none hv hbr]
      obtain ⟨leak, hl, hmet⟩ := allocBranch_none s hb.holds hbr
      rw [hmet]
      exact balanced_iff_leak hb hl
    | some m =>
      obtain ⟨⟨hst, -⟩, hmet⟩ := allocBranch_some s hbr
      rw [hmet, Enters]
      cases hi : cuda.insert with
      | false =>
        -- nothing is undone when the entry does not get into the table
        rw [step_alloc_insert_fails hv hbr hi]
        have hl : (s.branch gdrcopy pageSize a cuda).2.Holds
            (m.resources gdrcopy ++ s.allocs.flatMap Prod.snd) := by
          rw [branch, hst]
          exact ⟨hb.holds.held.append_left _, hb.holds.misuse⟩
        exact iff_of_false (mt (balanced_iff_leak hb hl).1 resources_ne_nil) (by simp)
      | true =>
        rw [step_alloc_some hv hbr hi]
        constructor
        · intro hbal
          refine ⟨rfl, of_not_not fun hne => ?_⟩
          exact (List.nodup_cons.1 hbal.keys).1 ((hb.mtable _).1 hne)
        · rintro ⟨-, hnew⟩
          refine ⟨List.nodup_cons.2 ⟨fun hmem => (hb.mtable _).2 hmem hnew, hb.keys⟩, ?_, ?_⟩
          · intro p
            have hmt := hb.mtable p
            by_cases hp : p = m.alignAddrGpu
            · simp [GpuMem.insert, hnew, hp]
            · simpa [GpuMem.insert, hnew, hp] using hmt
          · exact ⟨(hb.holds.held.append_left _).trans (by simp), hb.holds.misuse⟩

theorem alloc_entry (h : s.Inv gdrcopy) (hm : s.Meets gdrcopy pageSize (.memAlloc a cuda)) :
    (s.step gdrcopy pageSize (.memAlloc a cuda)).Inv gdrcopy := by
  refine ⟨(alloc_right h).2 hm, ?_⟩
  cases hv : a.valid pageSize with
  | false =>
    rw [step_alloc_invalid hv]
    exact h.entry
  | true =>
    cases hbr : (s.branch gdrcopy pageSize a cuda).1 with
    | none =>
      rw [step_alloc_none hv hbr]
      exact h.entry
    | some m =>
      obtain ⟨⟨-, hmap⟩, hmet⟩ := allocBranch_some s hbr
      obtain ⟨hi, hnew⟩ := hmet.1 (hm hv)
      rw [step_alloc_some hv hbr hi]
      refine List.forall_mem_cons.2 ⟨⟨m, ?_, rfl, hmap⟩, fun x hx => ?_⟩
      · simp [GpuMem.insert, hnew]
      · obtain ⟨m', hm', hrest⟩ := h.entry x hx
        refine ⟨m', ?_, hrest⟩
        have hne : x.1 ≠ m.alignAddrGpu := fun heq => by
          rw [heq, hnew] at hm'
          cases hm'
        simp [GpuMem.insert, hnew, hne, hm']

end Alloc

section Free

variable {devNull : Bool} {p : ℕ} {cuda : FreeCuda}

/-- In the ledger of an allocated entry, its resources come off the others. -/
theorem holds_split (h : s.Inv gdrcopy) {m : Mentry} (hm : s.mem.mtable p = some m) :
    s.mem.store.Holds (m.resources gdrcopy ++
      (s.allocs.filter fun x => x.1 ≠ p).flatMap Prod.snd) ∧ m.Mapped gdrcopy := by
  have hmem : p ∈ s.allocs.map Prod.fst := (h.balanced.mtable p).1 (by simp [hm])
  obtain ⟨x, hx, rfl⟩ := List.mem_map.1 hmem
  obtain ⟨m', hm', hres, hmap⟩ := h.entry x hx
  rw [hm] at hm'
  cases hm'
  refine ⟨h.balanced.holds.of_perm ?_, hmap⟩
  have hkeys := h.balanced.keys
  have hperm := List.perm_cons_erase hx
  have hfilter : (s.allocs.filter fun y => y.1 ≠ x.1) = s.allocs.erase x := by
    rw [(List.Nodup.of_map _ hkeys).erase_eq_filter]
    refine List.filter_congr fun y hy => ?_
    have hiff : y.1 = x.1 ↔ y = x :=
      ⟨fun heq => List.inj_on_of_nodup_map hkeys hy hx heq, fun heq => by rw [heq]⟩
    simp [bne, hiff, beq_eq_decide]
  rw [hfilter, ← hres]
  exact hperm.flatMap_right Prod.snd

section Entry

variable {m : Mentry}

/-- Not in the fallback, an entry is released resource by resource. -/
theorem releaseEntry_eq (hf : m.mtype = .gpuCpu → gdrcopy = true)
    (cuda : FreeCuda) (st : Store Resource) :
    releaseEntry gdrcopy m cuda st = st.releaseAll (m.releases cuda) := by
  obtain ⟨mtype, base, gpu, cpu, gdr⟩ := m
  cases mtype with
  | gpu => rfl
  | cpuGpu => rfl
  | gpuCpu =>
    obtain rfl : gdrcopy = true := hf rfl
    cases gdr <;> rfl

/-- These are the resources it has acquired, all different. -/
theorem releases_map_fst (hf : m.mtype = .gpuCpu → gdrcopy = true)
    (cuda : FreeCuda) :
    (m.releases cuda).map Prod.fst = m.resources gdrcopy ∧ (m.resources gdrcopy).Nodup := by
  obtain ⟨mtype, base, gpu, cpu, gdr⟩ := m
  cases mtype with
  | gpu => simp [Mentry.releases, Mentry.resources]
  | cpuGpu => simp [Mentry.releases, Mentry.resources]
  | gpuCpu =>
    obtain rfl : gdrcopy = true := hf rfl
    cases gdr <;> simp [Mentry.releases, Mentry.resources]

theorem releases_ok_iff (hf : m.mtype = .gpuCpu → gdrcopy = true)
    (hmap : m.Mapped gdrcopy) (cuda : FreeCuda) :
    (∀ x ∈ m.releases cuda, x.2 = true) ↔ FreeMeets gdrcopy cuda m.mtype := by
  obtain ⟨mtype, base, gpu, cpu, gdr⟩ := m
  cases mtype with
  | gpu => simp [Mentry.releases, FreeMeets]
  | cpuGpu => simp [Mentry.releases, FreeMeets]
  | gpuCpu =>
    obtain rfl : gdrcopy = true := hf rfl
    obtain ⟨g, hg⟩ := Option.ne_none_iff_exists'.1 (hmap rfl rfl)
    obtain rfl : gdr = some g := hg
    simp [Mentry.releases, FreeMeets]

/-- Host memory of the fallback is released as if it were a device block, and not all of it. -/
theorem length_lt_releaseEntry (hm : m.mtype = .gpuCpu) (cuda : FreeCuda) {st : Store Resource}
    {n : ℕ} (hst : st.held.length = (m.resources false).length + n) :
    n < (releaseEntry false m cuda st).held.length := by
  have hle := Store.length_le_release (s := st) (r := .cudaBlock m.baseAddr) cuda.cudaFree
  have hrel : releaseEntry false m cuda st = st.release (.cudaBlock m.baseAddr) cuda.cudaFree := by
    simp [releaseEntry, hm]
  have htwo : (m.resources false).length = 2 := by simp [Mentry.resources, hm]
  rw [hrel]
  omega

variable {cuda : FreeCuda} {st : Store Resource}

/-- **A release keeps the balance exactly if it meets the condition.** -/
theorem releaseEntry_holds (hmap : m.Mapped gdrcopy) {l : List Resource}
    (h : st.Holds (m.resources gdrcopy ++ l)) :
    (releaseEntry gdrcopy m cuda st).Holds l ↔ FreeMeets gdrcopy cuda m.mtype := by
  by_cases hf : m.mtype = .gpuCpu → gdrcopy = true
  · rw [← (releases_map_fst hf cuda).1] at h
    rw [releaseEntry_eq hf, h.releaseAll_iff, releases_ok_iff hf hmap]
  · obtain ⟨hm, hg⟩ := not_forall.1 hf
    obtain rfl : gdrcopy = false := by simpa using hg
    refine iff_of_false (fun hl => ?_) (by simp [FreeMeets, hm])
    have hlt := length_lt_releaseEntry hm cuda (h.length_eq.trans List.length_append)
    exact absurd hl.length_eq (Nat.ne_of_gt hlt)

/-- **A release undoes what the entry has acquired exactly if it meets the condition.** -/
theorem releaseEntry_acquireAll (hmap : m.Mapped gdrcopy) (cuda : FreeCuda)
    (st : Store Resource) :
    releaseEntry gdrcopy m cuda (st.acquireAll (m.resources gdrcopy)) = st ↔
      FreeMeets gdrcopy cuda m.mtype := by
  by_cases hf : m.mtype = .gpuCpu → gdrcopy = true
  · obtain ⟨hfst, hnodup⟩ := releases_map_fst hf cuda
    rw [← hfst] at hnodup
    rw [releaseEntry_eq hf, ← hfst, Store.releaseAll_eq_iff hnodup, releases_ok_iff hf hmap]
  · obtain ⟨hm, hg⟩ := not_forall.1 hf
    obtain rfl : gdrcopy = false := by simpa using hg
    refine iff_of_false (fun heq => ?_) (by simp [FreeMeets, hm])
    have hlt := length_lt_releaseEntry hm cuda
      (Store.length_acquireAll (s := st) (l := m.resources false))
    rw [heq] at hlt
    exact Nat.lt_irrefl _ hlt

end Entry

theorem free_unknown (h : p ∉ s.allocs.map Prod.fst) (hb : s.Balanced) :
    s.step gdrcopy pageSize (.memFree devNull p cuda) = s := by
  have hn : s.mem.mtable p = none := by
    by_contra hne
    exact h ((hb.mtable p).1 hne)
  by_cases hinv : devNull = true ∨ p = 0 <;> simp [step, Gpunetio.memFree, hinv, hn]

theorem step_free (hp : p ≠ 0) {m : Mentry} (hm : s.mem.mtable p = some m) :
    s.step gdrcopy pageSize (.memFree false p cuda) =
      ⟨⟨Function.update s.mem.mtable p none, releaseEntry gdrcopy m cuda s.mem.store⟩,
        s.allocs.filter fun x => x.1 ≠ p⟩ := by
  simp [step, Gpunetio.memFree, hp, hm]

/-- The table and the ledger lose the same entry. -/
theorem balanced_free_iff (hb : s.Balanced) {st : Store Resource} :
    Balanced ⟨⟨Function.update s.mem.mtable p none, st⟩, s.allocs.filter fun x => x.1 ≠ p⟩ ↔
      st.Holds ((s.allocs.filter fun x => x.1 ≠ p).flatMap Prod.snd) := by
  refine ⟨fun hbal => hbal.holds, fun hh => ⟨?_, fun q => ?_, hh⟩⟩
  · exact hb.keys.sublist (List.filter_sublist.map _)
  · have hmt := hb.mtable q
    rw [List.mem_map] at hmt ⊢
    by_cases hq : q = p
    · subst hq
      simp
    · simp only [Function.update_of_ne hq, hmt, List.mem_filter, ne_eq, decide_eq_true_eq]
      constructor
      · rintro ⟨x, hx, rfl⟩
        exact ⟨x, ⟨hx, hq⟩, rfl⟩
      · rintro ⟨x, ⟨hx, -⟩, rfl⟩
        exact ⟨x, hx, rfl⟩

/-- **A `mem_free` is right exactly if it meets the condition.** -/
theorem free_right (h : s.Inv gdrcopy) :
    s.Right gdrcopy pageSize (.memFree devNull p cuda) ↔
      s.Meets gdrcopy pageSize (.memFree devNull p cuda) := by
  have hb := h.balanced
  simp only [Right, Meets]
  by_cases hmem : p ∈ s.allocs.map Prod.fst
  · obtain ⟨m, hm⟩ := Option.ne_none_iff_exists'.1 ((hb.mtable p).2 hmem)
    cases devNull with
    | true =>
      have hs : s.step gdrcopy pageSize (.memFree true p cuda) = s := by
        simp [step, Gpunetio.memFree]
      rw [hs]
      exact iff_of_true ⟨hb, nofun⟩ nofun
    | false =>
      by_cases hp : p = 0
      · refine iff_of_false (fun hr => ?_) fun hall => (hall rfl m hm).1 hp
        have := hr.2 rfl hmem
        simp [Gpunetio.memFree, hp] at this
      · rw [step_free hp hm, balanced_free_iff hb]
        obtain ⟨hholds, hmap⟩ := holds_split h hm
        rw [releaseEntry_holds hmap hholds]
        constructor
        · rintro ⟨hf, -⟩ - m' hm'
          rw [hm] at hm'
          cases hm'
          exact ⟨hp, hf⟩
        · intro hall
          exact ⟨(hall rfl m hm).2, fun _ _ => by simp [Gpunetio.memFree, hp, hm]⟩
  · rw [free_unknown hmem hb]
    refine iff_of_true ⟨hb, fun _ hin => (hmem hin).elim⟩ fun _ m hm => ?_
    exact (hmem ((hb.mtable p).1 (by simp [hm]))).elim

theorem free_entry (h : s.Inv gdrcopy) (hm : s.Meets gdrcopy pageSize (.memFree devNull p cuda)) :
    (s.step gdrcopy pageSize (.memFree devNull p cuda)).Inv gdrcopy := by
  refine ⟨((free_right h).2 hm).1, ?_⟩
  by_cases hmem : p ∈ s.allocs.map Prod.fst
  · obtain ⟨m, hmt⟩ := Option.ne_none_iff_exists'.1 ((h.balanced.mtable p).2 hmem)
    cases devNull with
    | true =>
      have hs : s.step gdrcopy pageSize (.memFree true p cuda) = s := by
        simp [step, Gpunetio.memFree]
      rw [hs]
      exact h.entry
    | false =>
      rw [step_free (hm rfl m hmt).1 hmt]
      intro x hx
      obtain ⟨hx, hne⟩ := List.mem_filter.1 hx
      obtain ⟨m', hm', hrest⟩ := h.entry x hx
      exact ⟨m', (Function.update_of_ne (of_decide_eq_true hne) ..).trans hm', hrest⟩
  · rw [free_unknown hmem h.balanced]
    exact h.entry

end Free

section Undone

variable {g : GpuMem} {m : Mentry} {free : FreeCuda} {p : ℕ}

/-- What is not in the table is not undone. -/
theorem memFree_lost_ne {l : List Resource} (hl : l ≠ []) (p : ℕ) (free : FreeCuda) :
    (Gpunetio.memFree gdrcopy false p free ⟨g.mtable, g.store.acquireAll l⟩).2 ≠ g := by
  intro heq
  cases hm : g.mtable p with
  | none =>
    have hsame : (Gpunetio.memFree gdrcopy false p free ⟨g.mtable, g.store.acquireAll l⟩).2 =
        ⟨g.mtable, g.store.acquireAll l⟩ := by
      simp [Gpunetio.memFree, hm]
    exact hl (Store.acquireAll_eq_self.1 (congrArg GpuMem.store (hsame.symm.trans heq)))
  | some m =>
    by_cases hp : p = 0
    · have hstore := congrArg GpuMem.store heq
      simp only [Gpunetio.memFree, hp, or_true, if_true] at hstore
      exact hl (Store.acquireAll_eq_self.1 hstore)
    · -- another entry is taken away
      have hkey := congrFun (congrArg GpuMem.mtable heq) p
      simp [Gpunetio.memFree, hm, hp] at hkey

/-- **A `mem_free` undoes an allocation** exactly if the allocation has got a new key that is not
null, and the release meets its condition. -/
theorem memFree_insert_iff (hmap : m.Mapped gdrcopy) :
    (Gpunetio.memFree gdrcopy false m.alignAddrGpu free
      (GpuMem.insert ⟨g.mtable, g.store.acquireAll (m.resources gdrcopy)⟩ m)).2 = g ↔
      m.alignAddrGpu ≠ 0 ∧ g.mtable m.alignAddrGpu = none ∧
        FreeMeets gdrcopy free m.mtype := by
  by_cases hnew : g.mtable m.alignAddrGpu = none
  · have hins : GpuMem.insert ⟨g.mtable, g.store.acquireAll (m.resources gdrcopy)⟩ m =
        ⟨Function.update g.mtable m.alignAddrGpu (some m),
          g.store.acquireAll (m.resources gdrcopy)⟩ := by
      simp [GpuMem.insert, hnew]
    rw [hins]
    by_cases h0 : m.alignAddrGpu = 0
    · refine iff_of_false (fun heq => ?_) fun h => h.1 h0
      have hstore := congrArg GpuMem.store heq
      simp only [Gpunetio.memFree, h0, or_true, if_true] at hstore
      exact resources_ne_nil (Store.acquireAll_eq_self.1 hstore)
    · have hback : Function.update (Function.update g.mtable m.alignAddrGpu (some m))
          m.alignAddrGpu none = g.mtable := by
        rw [Function.update_idem, ← hnew, Function.update_eq_self]
      simp only [Gpunetio.memFree, Bool.false_eq_true, h0, or_self, if_false,
        Function.update_self, hback]
      rw [← releaseEntry_acquireAll hmap free g.store]
      exact ⟨fun heq => ⟨h0, hnew, congrArg GpuMem.store heq⟩, fun h => by rw [h.2.2]⟩
  · -- the entry of before stays in the table, and is taken away
    have hins : GpuMem.insert ⟨g.mtable, g.store.acquireAll (m.resources gdrcopy)⟩ m =
        ⟨g.mtable, g.store.acquireAll (m.resources gdrcopy)⟩ := by
      simp [GpuMem.insert, hnew]
    rw [hins]
    exact iff_of_false (memFree_lost_ne resources_ne_nil _ _) fun h => hnew h.2.1

end Undone

/-- **When the ledger balances.** Along any history of allocations and frees, with any arguments
and any outcomes of the calls they make, every call is right if and only if each meets the
condition. An allocation does if every release in it succeeds, and if, once it has its memory, the
mapping succeeds (with GDRCopy), the device pointer is found (for the fallback to host memory) and
the entry gets into the table under a new address; a `mem_free` does if every release in it
succeeds and the entry is not one of the fallback. -/
theorem balance_iff (gdrcopy : Bool) (pageSize : ℕ) (es : List MemEvent) :
    Along (step gdrcopy pageSize) (Right gdrcopy pageSize) empty es ↔
      Along (step gdrcopy pageSize) (Meets gdrcopy pageSize) empty es := by
  have hempty : Inv gdrcopy empty :=
    ⟨⟨List.nodup_nil, fun _ => by simp [empty], ⟨.refl _, rfl⟩⟩, nofun⟩
  refine along_iff hempty (fun s e h => ?_) fun s e h hm => ?_
  · cases e with
    | memAlloc a cuda => exact (and_iff_left trivial).trans (alloc_right h)
    | memFree devNull p cuda => exact free_right h
  · cases e with
    | memAlloc a cuda => exact alloc_entry h hm
    | memFree devNull p cuda => exact free_entry h hm

/-- Memory of the type `GPU_CPU` with GDRCopy, whose pages cannot be pinned: the call fails, and the
`cudaMalloc` block at `2 ^ 16` is still held. -/
theorem failed_mapping_leaks :
    let a : AllocArgs := ⟨false, false, false, 8, 0, .gpuCpu⟩
    let cuda : AllocCuda :=
      ⟨some (2 ^ 16), true, true, some 1, true, none, none, true, none, true, none, true, true⟩
    ¬ Along (step true 4096) (Right true 4096) empty [.memAlloc a cuda] ∧
      (memAlloc true 4096 a cuda empty.mem).1 = .driver ∧
      (run (step true 4096) empty [.memAlloc a cuda]).mem.store.held =
        [.cudaBlock (2 ^ 16)] := by
  refine ⟨fun h => ?_, by decide, by decide⟩
  exact absurd h.1.1.holds.length_eq (by decide)

end MemSys

end Gpunetio
