import Gpunetio.Host.Create
import Gpunetio.Lib.Region

/-!
# Where allocated memory lies

`doca_gpu_mem_alloc` asks for more than is wanted and rounds the address up inside the block it
gets, except where it falls back to host memory, which it asks for in another way and takes as it
is. Sizes and addresses are 64-bit words here, and sums of them wrap around.

* `Args`, `Calls`, `Entry`, `Allocated`: the arguments, the outcomes of the calls, what is entered
  in `mtable`, and the memory behind it;
* `placeDevice`, `placeGdr`, `placeFallback`, `placeHost`, `place`: the branches and the function;
* `Placed`: both pointers are aligned, and what they point to lies in the block allocated;
* `PlaceMeets`, **`placed_iff`**: when it does; `misplaced`;
* `memAlloc_of_place`: the addresses are those of the ledger.
-/

namespace Gpunetio.Placement

/-- The arguments of an allocation. -/
structure Args where
  devNull : Bool
  memptrGpuNull : Bool
  memptrCpuNull : Bool
  size : BitVec 64
  alignment : BitVec 64
  mtype : MemType
deriving DecidableEq, Repr

/-- The arguments as numbers. -/
def Args.toAllocArgs (a : Args) : AllocArgs :=
  ⟨a.devNull, a.memptrGpuNull, a.memptrCpuNull, a.size.toNat, a.alignment.toNat, a.mtype⟩

/-- The alignment used. -/
def Args.used (a : Args) (pageSize : BitVec 64) : BitVec 64 :=
  if a.mtype = .gpuCpu then BitVec.ofNat 64 gpuPageSize
  else if a.alignment = 0#64 then pageSize else a.alignment

/-- The outcomes of the calls, a pointer unless the call fails; `createMapping` is for
`doca_gpu_gdrcopy_create_mapping`. -/
structure Calls where
  cudaMalloc : Option (BitVec 64)
  setAttribute : Bool
  createMapping : Option (BitVec 64)
  calloc : Option (BitVec 64)
  hostRegister : Bool
  devicePointer : Option (BitVec 64)
  insert : Bool
deriving DecidableEq, Repr

/-- `doca_gpu_mtable`, without the GDRCopy handle. -/
structure Entry where
  baseAddr : BitVec 64
  sizeOrig : BitVec 64
  alignAddrGpu : BitVec 64
  alignAddrCpu : BitVec 64
  size : BitVec 64
  mtype : MemType
deriving DecidableEq, Repr

/-- An entry with the block behind it, on the device or on the host, and the addresses under which
the other side sees it. -/
structure Allocated where
  entry : Entry
  onDevice : Bool
  block : Region 64
  window : Option (Window 64)
deriving DecidableEq, Repr

/-- `calloc` of `n` elements of `size` bytes: null if the product is no 64-bit number. -/
def callocBlock (n size : BitVec 64) (outcome : Option (BitVec 64)) : Option (Region 64) :=
  if n.toNat * size.toNat < 2 ^ 64 then outcome.map fun p => ⟨p, n.toNat * size.toNat⟩ else none

/-- The address rounded up. -/
def alignPtr (p alignment : BitVec 64) : BitVec 64 :=
  if alignment ≠ 0#64 ∧ p % alignment ≠ 0#64 then p + (alignment - p % alignment) else p

section Place

variable (alignment : BitVec 64) (a : Args) (calls : Calls)

/-- The device block of the types `GPU` and `GPU_CPU`. -/
def placeDevice : Option Allocated :=
  let sizeOrig := a.size + alignment
  match calls.cudaMalloc with
  | none => none
  | some p =>
    if calls.setAttribute then
      some
        { entry := ⟨p, sizeOrig, alignPtr p alignment, 0#64, a.size, a.mtype⟩
          onDevice := true
          block := ⟨p, sizeOrig.toNat⟩
          window := none }
    else none

/-- The type `GPU_CPU` with GDRCopy: the host sees as many bytes as were asked for. -/
def placeGdr : Option Allocated :=
  match placeDevice alignment a calls with
  | none => none
  | some x =>
    match calls.createMapping with
    | none => none
    | some va =>
      some
        { x with
          entry := { x.entry with alignAddrCpu := va }
          window := some ⟨⟨va, x.entry.size.toNat⟩, x.entry.alignAddrGpu⟩ }

/-- The type `GPU_CPU` without GDRCopy: `size` elements of host memory, of `alignment` bytes each.
-/
def placeFallback : Option Allocated :=
  let sizeOrig := a.size
  match callocBlock alignment sizeOrig calls.calloc with
  | none => none
  | some block =>
    if calls.hostRegister then
      match calls.devicePointer with
      | none => none
      | some d =>
        some
          { entry := ⟨block.start, sizeOrig, d, block.start, a.size, a.mtype⟩
            onDevice := false
            block := block
            window := some ⟨⟨d, sizeOrig.toNat⟩, block.start⟩ }
    else none

/-- The type `CPU_GPU`: the device sees as many bytes as were asked for. -/
def placeHost : Option Allocated :=
  let sizeOrig := a.size + alignment
  match callocBlock sizeOrig 1#64 calls.calloc with
  | none => none
  | some block =>
    let cpu := alignPtr block.start alignment
    if calls.hostRegister then
      match calls.devicePointer with
      | none => none
      | some d =>
        some
          { entry := ⟨block.start, sizeOrig, d, cpu, a.size, a.mtype⟩
            onDevice := false
            block := block
            window := some ⟨⟨d, a.size.toNat⟩, cpu⟩ }
    else none

/-- The branch of each type. -/
def placeBranch (gdrcopy : Bool) : Option Allocated :=
  match a.mtype with
  | .gpu => placeDevice alignment a calls
  | .gpuCpu => if gdrcopy then placeGdr alignment a calls else placeFallback alignment a calls
  | .cpuGpu => placeHost alignment a calls

end Place

/-- **`doca_gpu_mem_alloc`**, if it succeeds: it returns the two addresses of the entry. -/
def place (gdrcopy : Bool) (pageSize : BitVec 64) (a : Args) (calls : Calls) : Option Allocated :=
  if a.toAllocArgs.valid pageSize.toNat && calls.insert then
    placeBranch (a.used pageSize) a calls gdrcopy
  else none

/-! ## What it should return -/

/-- The `n` bytes a pointer of one side points to lie in the block, or are seen to do so. -/
def Allocated.Reaches (x : Allocated) (device : Bool) (p : BitVec 64) (n : ℕ) : Prop :=
  if device = x.onDevice then Region.Within ⟨p, n⟩ x.block
  else ∃ v, x.window = some v ∧ v.Shows ⟨p, n⟩ x.block

/-- Both pointers are multiples of the alignment, and the bytes they point to have been allocated;
memory of the type `GPU` has no pointer on the host. -/
structure Placed (a : Args) (alignment : BitVec 64) (x : Allocated) : Prop where
  gpuAligned : alignment.toNat ∣ x.entry.alignAddrGpu.toNat
  gpuInside : x.Reaches true x.entry.alignAddrGpu a.size.toNat
  cpuAligned : a.mtype ≠ .gpu → alignment.toNat ∣ x.entry.alignAddrCpu.toNat
  cpuInside : a.mtype ≠ .gpu → x.Reaches false x.entry.alignAddrCpu a.size.toNat

/-- The size with the room for rounding is a 64-bit number, and what is taken as it is, is aligned:
the host address of a GDRCopy mapping, the device address of host memory, and without GDRCopy the
`calloc` block. -/
def PlaceMeets (gdrcopy : Bool) (alignment : BitVec 64) (a : Args) (calls : Calls) : Prop :=
  match a.mtype with
  | .gpu => a.size.toNat + alignment.toNat < 2 ^ 64
  | .gpuCpu =>
    if gdrcopy then a.size.toNat + alignment.toNat < 2 ^ 64 ∧
      ∀ va, calls.createMapping = some va → alignment.toNat ∣ va.toNat
    else (∀ c, calls.calloc = some c → alignment.toNat ∣ c.toNat) ∧
      ∀ d, calls.devicePointer = some d → alignment.toNat ∣ d.toNat
  | .cpuGpu => a.size.toNat + alignment.toNat < 2 ^ 64 ∧
      ∀ d, calls.devicePointer = some d → alignment.toNat ∣ d.toNat

/-! ## Rounding inside a block -/

section Align

variable {alignment p size : BitVec 64} {k : ℕ}

/-- Rounding adds less than the alignment. -/
theorem alignPtr_eq (hk : k < 64) (h : alignment.toNat = 2 ^ k) (p : BitVec 64) :
    ∃ o < 2 ^ k, alignPtr p alignment = p + BitVec.ofNat 64 o ∧
      2 ^ k ∣ (alignPtr p alignment).toNat := by
  have hpos := Nat.two_pow_pos k
  have hne : alignment ≠ 0#64 := fun h0 => by
    rw [h0] at h
    exact hpos.ne h
  have hmod : (p % alignment).toNat = p.toNat % 2 ^ k := by rw [BitVec.toNat_umod, h]
  have hlt := Nat.mod_lt p.toNat hpos
  by_cases hp : p % alignment = 0#64
  · refine ⟨0, hpos, ?_⟩
    rw [alignPtr, if_neg fun hc => hc.2 hp, BitVec.add_zero]
    refine ⟨rfl, Nat.dvd_of_mod_eq_zero ?_⟩
    rw [← hmod, hp]
    rfl
  · have hr : p.toNat % 2 ^ k ≠ 0 := fun h0 => hp (BitVec.toNat_inj.1 (hmod.trans h0))
    have hsub : (alignment - p % alignment).toNat = 2 ^ k - p.toNat % 2 ^ k := by
      rw [BitVec.toNat_sub_of_le (by rw [BitVec.le_def, hmod, h]; exact hlt.le), h, hmod]
    refine ⟨2 ^ k - p.toNat % 2 ^ k, by omega, ?_⟩
    rw [alignPtr, if_pos ⟨hne, hp⟩]
    refine ⟨?_, ?_⟩
    · rw [← hsub, BitVec.ofNat_toNat, BitVec.setWidth_eq]
    · have hsum : 2 ^ k ∣ p.toNat + (2 ^ k - p.toNat % 2 ^ k) := by
        have hdiv := Nat.div_add_mod p.toNat (2 ^ k)
        have heq : p.toNat + (2 ^ k - p.toNat % 2 ^ k) = 2 ^ k * (p.toNat / 2 ^ k + 1) := by
          rw [Nat.mul_succ]
          omega
        exact Dvd.intro _ heq.symm
      rw [BitVec.toNat_add, hsub]
      exact (Nat.dvd_mod_iff (Nat.pow_dvd_pow 2 hk.le)).2 hsum

theorem dvd_alignPtr (hk : k < 64) (h : alignment.toNat = 2 ^ k) :
    alignment.toNat ∣ (alignPtr p alignment).toNat := by
  obtain ⟨-, -, -, hdvd⟩ := alignPtr_eq hk h p
  rwa [h]

/-- **There is room for rounding exactly if the sum of size and alignment does not wrap.** -/
theorem within_alignPtr (hk : k < 64) (h : alignment.toNat = 2 ^ k) :
    Region.Within ⟨alignPtr p alignment, size.toNat⟩ ⟨p, (size + alignment).toNat⟩ ↔
      size.toNat + alignment.toNat < 2 ^ 64 := by
  have hsize := size.isLt
  have halign := alignment.isLt
  rw [BitVec.toNat_add]
  constructor
  · intro hin
    by_contra hge
    have hle : size.toNat ≤ (size.toNat + alignment.toNat) % 2 ^ 64 := hin.length_le hsize.le
    omega
  · intro hlt
    obtain ⟨o, ho, heq, -⟩ := alignPtr_eq hk h p
    rw [heq, Nat.mod_eq_of_lt hlt]
    exact Region.within_of_le (by omega)

end Align

/-! ## The branches -/

section Branch

variable {gdrcopy : Bool} {pageSize alignment : BitVec 64} {a : Args} {calls : Calls}
  {x : Allocated} {k : ℕ}

theorem toNat_used : (a.used pageSize).toNat = a.toAllocArgs.used pageSize.toNat := by
  have hzero : a.alignment = 0#64 ↔ a.toAllocArgs.alignment = 0 :=
    ⟨fun h => congrArg BitVec.toNat h, fun h => BitVec.toNat_inj.1 h⟩
  have htype : a.mtype = a.toAllocArgs.mtype := rfl
  unfold Args.used AllocArgs.used
  rw [htype]
  simp only [hzero]
  split_ifs <;> rfl

/-- The alignment used is a power of two. -/
theorem exists_used_eq (hv : a.toAllocArgs.valid pageSize.toNat = true) :
    ∃ k < 64, (a.used pageSize).toNat = 2 ^ k := by
  have hpow : ∃ k, (a.used pageSize).toNat = 2 ^ k := by
    rw [AllocArgs.valid, Bool.and_eq_true] at hv
    rw [toNat_used, AllocArgs.used]
    by_cases htype : a.toAllocArgs.mtype = .gpuCpu
    · rw [if_pos htype]
      exact ⟨16, rfl⟩
    · rw [if_neg htype]
      exact privIsPowerOfTwo_iff.1 hv.2
  obtain ⟨k, hk⟩ := hpow
  refine ⟨k, (Nat.pow_lt_pow_iff_right Nat.one_lt_two).1 ?_, hk⟩
  rw [← hk]
  exact (a.used pageSize).isLt

theorem placeDevice_some (h : placeDevice alignment a calls = some x) :
    ∃ p, calls.cudaMalloc = some p ∧ calls.setAttribute = true ∧
      x = ⟨⟨p, a.size + alignment, alignPtr p alignment, 0#64, a.size, a.mtype⟩, true,
        ⟨p, (a.size + alignment).toNat⟩, none⟩ := by
  unfold placeDevice at h
  cases hp : calls.cudaMalloc with
  | none => simp only [hp] at h; cases h
  | some p =>
    simp only [hp] at h
    obtain ⟨hset, heq⟩ := Option.ite_none_right_eq_some.1 h
    exact ⟨p, rfl, hset, (Option.some.inj heq).symm⟩

theorem placeGdr_some (h : placeGdr alignment a calls = some x) :
    ∃ p va, calls.cudaMalloc = some p ∧ calls.setAttribute = true ∧
      calls.createMapping = some va ∧
      x = ⟨⟨p, a.size + alignment, alignPtr p alignment, va, a.size, a.mtype⟩, true,
        ⟨p, (a.size + alignment).toNat⟩, some ⟨⟨va, a.size.toNat⟩, alignPtr p alignment⟩⟩ := by
  unfold placeGdr at h
  cases hd : placeDevice alignment a calls with
  | none => simp only [hd] at h; cases h
  | some y =>
    obtain ⟨p, hp, hset, rfl⟩ := placeDevice_some hd
    cases hm : calls.createMapping with
    | none => simp only [hd, hm] at h; cases h
    | some va =>
      simp only [hd, hm] at h
      exact ⟨p, va, hp, hset, rfl, (Option.some.inj h).symm⟩

theorem callocBlock_some {n size : BitVec 64} {block : Region 64}
    (h : callocBlock n size calls.calloc = some block) :
    ∃ c, calls.calloc = some c ∧ block = ⟨c, n.toNat * size.toNat⟩ := by
  obtain ⟨-, hmap⟩ := Option.ite_none_right_eq_some.1 h
  obtain ⟨c, hc, rfl⟩ := Option.map_eq_some_iff.1 hmap
  exact ⟨c, hc, rfl⟩

theorem placeFallback_some (h : placeFallback alignment a calls = some x) :
    ∃ c d, calls.calloc = some c ∧ calls.hostRegister = true ∧ calls.devicePointer = some d ∧
      x = ⟨⟨c, a.size, d, c, a.size, a.mtype⟩, false, ⟨c, alignment.toNat * a.size.toNat⟩,
        some ⟨⟨d, a.size.toNat⟩, c⟩⟩ := by
  unfold placeFallback at h
  cases hb : callocBlock alignment a.size calls.calloc with
  | none => simp only [hb] at h; cases h
  | some block =>
    obtain ⟨c, hc, rfl⟩ := callocBlock_some hb
    cases hd : calls.devicePointer with
    | none => simp only [hb, hd, ite_self] at h; cases h
    | some d =>
      simp only [hb, hd] at h
      obtain ⟨hreg, heq⟩ := Option.ite_none_right_eq_some.1 h
      exact ⟨c, d, hc, hreg, rfl, (Option.some.inj heq).symm⟩

theorem placeHost_some (h : placeHost alignment a calls = some x) :
    ∃ c d, calls.calloc = some c ∧ calls.hostRegister = true ∧ calls.devicePointer = some d ∧
      x = ⟨⟨c, a.size + alignment, d, alignPtr c alignment, a.size, a.mtype⟩, false,
        ⟨c, (a.size + alignment).toNat⟩, some ⟨⟨d, a.size.toNat⟩, alignPtr c alignment⟩⟩ := by
  unfold placeHost at h
  cases hb : callocBlock (a.size + alignment) 1#64 calls.calloc with
  | none => simp only [hb] at h; cases h
  | some block =>
    obtain ⟨c, hc, rfl⟩ := callocBlock_some hb
    have hone : (a.size + alignment).toNat * (1#64).toNat = (a.size + alignment).toNat :=
      Nat.mul_one _
    cases hd : calls.devicePointer with
    | none => simp only [hb, hd, ite_self] at h; cases h
    | some d =>
      simp only [hb, hd, hone] at h
      obtain ⟨hreg, heq⟩ := Option.ite_none_right_eq_some.1 h
      exact ⟨c, d, hc, hreg, rfl, (Option.some.inj heq).symm⟩

end Branch

/-! ## When it returns what it should -/

section Placed

variable {alignment : BitVec 64} {a : Args} {calls : Calls} {x : Allocated} {k : ℕ}

theorem placeDevice_placed_iff (hk : k < 64) (halign : alignment.toNat = 2 ^ k)
    (htype : a.mtype = .gpu) (h : placeDevice alignment a calls = some x) :
    Placed a alignment x ↔ a.size.toNat + alignment.toNat < 2 ^ 64 := by
  obtain ⟨p, -, -, rfl⟩ := placeDevice_some h
  constructor
  · intro hp
    exact (within_alignPtr hk halign).1 hp.gpuInside
  · intro hlt
    exact ⟨dvd_alignPtr hk halign, (within_alignPtr hk halign).2 hlt, fun hne => (hne htype).elim,
      fun hne => (hne htype).elim⟩

theorem placeGdr_placed_iff (hk : k < 64) (halign : alignment.toNat = 2 ^ k)
    (htype : a.mtype ≠ .gpu) (h : placeGdr alignment a calls = some x) :
    Placed a alignment x ↔ a.size.toNat + alignment.toNat < 2 ^ 64 ∧
      ∀ va, calls.createMapping = some va → alignment.toNat ∣ va.toNat := by
  obtain ⟨p, va, -, -, hva, rfl⟩ := placeGdr_some h
  rw [hva]
  constructor
  · intro hp
    refine ⟨(within_alignPtr hk halign).1 hp.gpuInside, fun va' heq => ?_⟩
    obtain rfl := Option.some.inj heq
    exact hp.cpuAligned htype
  · rintro ⟨hlt, hdvd⟩
    have hin : Region.Within ⟨alignPtr p alignment, a.size.toNat⟩
        ⟨p, (a.size + alignment).toNat⟩ := (within_alignPtr hk halign).2 hlt
    exact ⟨dvd_alignPtr hk halign, hin, fun _ => hdvd va rfl,
      fun _ => ⟨_, rfl, Window.shows_seen hin⟩⟩

theorem placeFallback_placed_iff (halign : alignment.toNat = 2 ^ k) (htype : a.mtype ≠ .gpu)
    (h : placeFallback alignment a calls = some x) :
    Placed a alignment x ↔ (∀ c, calls.calloc = some c → alignment.toNat ∣ c.toNat) ∧
      ∀ d, calls.devicePointer = some d → alignment.toNat ∣ d.toNat := by
  obtain ⟨c, d, hc, -, hd, rfl⟩ := placeFallback_some h
  rw [hc, hd]
  constructor
  · intro hp
    refine ⟨fun c' heq => ?_, fun d' heq => ?_⟩
    · obtain rfl := Option.some.inj heq
      exact hp.cpuAligned htype
    · obtain rfl := Option.some.inj heq
      exact hp.gpuAligned
  · rintro ⟨hcdvd, hddvd⟩
    -- the block is larger than it has to be
    have hle : a.size.toNat ≤ alignment.toNat * a.size.toNat :=
      Nat.le_mul_of_pos_left _ (halign ▸ Nat.two_pow_pos k)
    have hin : Region.Within ⟨c, a.size.toNat⟩ ⟨c, alignment.toNat * a.size.toNat⟩ :=
      Region.within_start hle
    exact ⟨hddvd d rfl, ⟨_, rfl, Window.shows_seen hin⟩, fun _ => hcdvd c rfl, fun _ => hin⟩

theorem placeHost_placed_iff (hk : k < 64) (halign : alignment.toNat = 2 ^ k)
    (htype : a.mtype ≠ .gpu) (h : placeHost alignment a calls = some x) :
    Placed a alignment x ↔ a.size.toNat + alignment.toNat < 2 ^ 64 ∧
      ∀ d, calls.devicePointer = some d → alignment.toNat ∣ d.toNat := by
  obtain ⟨c, d, -, -, hd, rfl⟩ := placeHost_some h
  rw [hd]
  constructor
  · intro hp
    refine ⟨(within_alignPtr hk halign).1 (hp.cpuInside htype), fun d' heq => ?_⟩
    obtain rfl := Option.some.inj heq
    exact hp.gpuAligned
  · rintro ⟨hlt, hdvd⟩
    have hin : Region.Within ⟨alignPtr c alignment, a.size.toNat⟩
        ⟨c, (a.size + alignment).toNat⟩ := (within_alignPtr hk halign).2 hlt
    exact ⟨hdvd d rfl, ⟨_, rfl, Window.shows_seen hin⟩, fun _ => dvd_alignPtr hk halign,
      fun _ => hin⟩

end Placed

/-- **Aligned and inside.** For any arguments and any outcomes of the calls, an allocation that
succeeds returns aligned pointers to allocated memory exactly if size and alignment do not wrap when
they are added, and the addresses that are not rounded are aligned as they come. -/
theorem placed_iff (gdrcopy : Bool) (pageSize : BitVec 64) (a : Args) (calls : Calls)
    {x : Allocated} (h : place gdrcopy pageSize a calls = some x) :
    Placed a (a.used pageSize) x ↔ PlaceMeets gdrcopy (a.used pageSize) a calls := by
  obtain ⟨hok, hbranch⟩ := Option.ite_none_right_eq_some.1 h
  obtain ⟨k, hk, halign⟩ := exists_used_eq (Bool.and_eq_true_iff.1 hok).1
  unfold placeBranch at hbranch
  unfold PlaceMeets
  cases htype : a.mtype with
  | gpu =>
    rw [htype] at hbranch
    exact placeDevice_placed_iff hk halign htype hbranch
  | gpuCpu =>
    have hne : a.mtype ≠ .gpu := by rw [htype]; decide
    rw [htype] at hbranch
    cases gdrcopy with
    | true => exact placeGdr_placed_iff hk halign hne hbranch
    | false => exact placeFallback_placed_iff halign hne hbranch
  | cpuGpu =>
    have hne : a.mtype ≠ .gpu := by rw [htype]; decide
    rw [htype] at hbranch
    exact placeHost_placed_iff hk halign hne hbranch

/-- A device buffer of eight bytes, aligned to a page, in a block at a multiple of 256. -/
theorem placed_iff_page :
    let a : Args := ⟨false, false, true, 8#64, 0#64, .gpu⟩
    let calls : Calls := ⟨some 0x7f0000000100#64, true, none, none, false, none, true⟩
    Placed a (a.used 4096#64)
        ⟨⟨0x7f0000000100#64, 4104#64, 0x7f0000001000#64, 0#64, 8#64, .gpu⟩, true,
          ⟨0x7f0000000100#64, 4104⟩, none⟩ ↔
      PlaceMeets true (a.used 4096#64) a calls :=
  placed_iff true 4096#64 _ _ (by decide)

/-- Without GDRCopy, `calloc` returns an address that is a multiple of 16: so are both pointers, and
not of `2 ^ 16`. And a device buffer so large that adding the alignment wraps gets a block of one
byte. -/
theorem misplaced :
    (∃ x, place false 4096#64 ⟨false, false, false, 8#64, 0#64, .gpuCpu⟩
        ⟨none, false, none, some 0x55550010#64, true, some 0x55550010#64, true⟩ = some x ∧
      x.entry.alignAddrGpu = 0x55550010#64 ∧ x.entry.alignAddrCpu = 0x55550010#64 ∧
      ¬ Placed ⟨false, false, false, 8#64, 0#64, .gpuCpu⟩ 0x10000#64 x) ∧
    ∃ x, place true 4096#64 ⟨false, false, true, 0xfffffffffffff001#64, 4096#64, .gpu⟩
        ⟨some 0x7f0000000100#64, true, none, none, false, none, true⟩ = some x ∧
      x.block.length = 1 ∧
      ¬ Placed ⟨false, false, true, 0xfffffffffffff001#64, 4096#64, .gpu⟩ 4096#64 x := by
  refine ⟨⟨_, rfl, rfl, rfl, fun h => ?_⟩, ⟨_, rfl, rfl, fun h => ?_⟩⟩
  · exact absurd h.gpuAligned (by decide)
  · have hin : Region.Within ⟨0x7f0000001000#64, 0xfffffffffffff001⟩ ⟨0x7f0000000100#64, 1⟩ :=
      h.gpuInside
    exact absurd (hin.length_le (by decide)) (by decide)

/-! ## The addresses of the ledger -/

/-- The outcomes as numbers. -/
def Calls.ofCuda (cuda : AllocCuda) : Calls :=
  { cudaMalloc := cuda.cudaMalloc.map (BitVec.ofNat 64)
    setAttribute := cuda.setAttribute
    createMapping :=
      (gdrcopyCreateMapping cuda Custody.Store.empty).1.map fun g => BitVec.ofNat 64 g.va
    calloc := cuda.calloc.map (BitVec.ofNat 64)
    hostRegister := cuda.hostRegister
    devicePointer := cuda.devicePointer.map (BitVec.ofNat 64)
    insert := cuda.insert }

section Ledger

variable {gdrcopy : Bool} {pageSize alignment : BitVec 64} {a : Args} {cuda : AllocCuda}
  {x : Allocated} {k : ℕ}

/-- Rounding commutes with the truncation to 64 bits. -/
theorem alignPtr_ofNat (hk : k < 64) (h : alignment.toNat = 2 ^ k) (p : ℕ) :
    alignPtr (BitVec.ofNat 64 p) alignment = BitVec.ofNat 64 (alignUp p alignment.toNat) := by
  have hpos := Nat.two_pow_pos k
  have hlt := Nat.mod_lt p hpos
  have hmod : (BitVec.ofNat 64 p % alignment).toNat = p % 2 ^ k := by
    rw [BitVec.toNat_umod, h, BitVec.toNat_ofNat, Nat.mod_mod_of_dvd _ (Nat.pow_dvd_pow 2 hk.le)]
  have hzero : BitVec.ofNat 64 p % alignment = 0#64 ↔ p % 2 ^ k = 0 := by
    rw [← hmod]
    exact BitVec.toNat_inj.symm
  have hne : alignment ≠ 0#64 := fun h0 => by
    rw [h0] at h
    exact hpos.ne h
  unfold alignPtr alignUp
  rw [h]
  by_cases hp : p % 2 ^ k = 0
  · rw [if_neg fun hc => hc.2 (hzero.2 hp), if_pos hp]
  · rw [if_pos ⟨hne, mt hzero.1 hp⟩, if_neg hp, BitVec.ofNat_add]
    have hfit : 2 ^ k - p % 2 ^ k < 2 ^ 64 :=
      (Nat.sub_le _ _).trans_lt (Nat.pow_lt_pow_right Nat.one_lt_two hk)
    congr 1
    apply BitVec.eq_of_toNat_eq
    rw [BitVec.toNat_sub_of_le (by rw [BitVec.le_def, hmod, h]; exact hlt.le), h, hmod,
      BitVec.toNat_ofNat, Nat.mod_eq_of_lt hfit]

/-- A mapping does not depend on what is held. -/
theorem gdrcopyCreateMapping_fst (s s' : Custody.Store Resource) :
    (gdrcopyCreateMapping cuda s).1 = (gdrcopyCreateMapping cuda s').1 := by
  unfold gdrcopyCreateMapping privGdrcopyCreateMapping
  cases cuda.gdrHandle with
  | none => rfl
  | some mh =>
    cases cuda.gdrInit with
    | false => rfl
    | true =>
      cases cuda.gdrPin with
      | none => rfl
      | some handle =>
        cases cuda.gdrMap <;> rfl

/-- A branch that succeeds with these addresses succeeds in the ledger. -/
theorem allocBranch_of_placeBranch (hk : k < 64) (halign : alignment.toNat = 2 ^ k)
    (h : placeBranch alignment a (Calls.ofCuda cuda) gdrcopy = some x)
    (s : Custody.Store Resource) :
    ∃ m, (allocBranch alignment.toNat cuda s gdrcopy a.mtype).1 = some m ∧
      x.entry.alignAddrGpu = BitVec.ofNat 64 m.alignAddrGpu ∧
      x.entry.alignAddrCpu = BitVec.ofNat 64 m.alignAddrCpu := by
  unfold placeBranch at h
  cases htype : a.mtype with
  | gpu =>
    rw [htype] at h
    obtain ⟨p, hp, hset, rfl⟩ := placeDevice_some h
    obtain ⟨q, hq, rfl⟩ := Option.map_eq_some_iff.1 hp
    have hset' : cuda.setAttribute = true := hset
    refine ⟨⟨.gpu, q, alignUp q alignment.toNat, 0, none⟩, ?_, alignPtr_ofNat hk halign q, rfl⟩
    simp only [allocBranch, allocDevice, hq, hset', if_true]
  | gpuCpu =>
    rw [htype] at h
    cases gdrcopy with
    | true =>
      obtain ⟨p, va, hp, hset, hva, rfl⟩ := placeGdr_some h
      obtain ⟨q, hq, rfl⟩ := Option.map_eq_some_iff.1 hp
      obtain ⟨g, hg, rfl⟩ := Option.map_eq_some_iff.1 hva
      have hset' : cuda.setAttribute = true := hset
      refine ⟨⟨.gpuCpu, q, alignUp q alignment.toNat, g.va, some g⟩, ?_,
        alignPtr_ofNat hk halign q, rfl⟩
      rw [gdrcopyCreateMapping_fst _ (s.acquire (.cudaBlock q))] at hg
      simp only [allocBranch, allocGdr, allocDevice, hq, hset', if_true, hg]
    | false =>
      obtain ⟨c, d, hc, hreg, hd, rfl⟩ := placeFallback_some h
      obtain ⟨q, hq, rfl⟩ := Option.map_eq_some_iff.1 hc
      obtain ⟨e, he, rfl⟩ := Option.map_eq_some_iff.1 hd
      have hreg' : cuda.hostRegister = true := hreg
      refine ⟨⟨.gpuCpu, q, e, q, none⟩, ?_, rfl, rfl⟩
      simp only [allocBranch, allocFallback, hq, he, hreg', Bool.false_eq_true,
        Bool.true_eq_false, if_false]
  | cpuGpu =>
    rw [htype] at h
    obtain ⟨c, d, hc, hreg, hd, rfl⟩ := placeHost_some h
    obtain ⟨q, hq, rfl⟩ := Option.map_eq_some_iff.1 hc
    obtain ⟨e, he, rfl⟩ := Option.map_eq_some_iff.1 hd
    have hreg' : cuda.hostRegister = true := hreg
    refine ⟨⟨.cpuGpu, q, e, alignUp q alignment.toNat, none⟩, ?_, rfl,
      alignPtr_ofNat hk halign q⟩
    simp only [allocBranch, allocHost, hq, he, hreg', Bool.true_eq_false, if_false]

/-- **The ledger's `memAlloc` returns these addresses**, before they are truncated to 64 bits. -/
theorem memAlloc_of_place (h : place gdrcopy pageSize a (Calls.ofCuda cuda) = some x)
    (g : GpuMem) :
    ∃ gpu cpu, (memAlloc gdrcopy pageSize.toNat a.toAllocArgs cuda g).1 = .success ∧
      (memAlloc gdrcopy pageSize.toNat a.toAllocArgs cuda g).2.1 = some (gpu, cpu) ∧
      x.entry.alignAddrGpu = BitVec.ofNat 64 gpu ∧ x.entry.alignAddrCpu = BitVec.ofNat 64 cpu := by
  obtain ⟨hok, hbranch⟩ := Option.ite_none_right_eq_some.1 h
  obtain ⟨hv, hinsert⟩ := Bool.and_eq_true_iff.1 hok
  obtain ⟨k, hk, halign⟩ := exists_used_eq hv
  obtain ⟨m, hm, hgpu, hcpu⟩ := allocBranch_of_placeBranch hk halign hbranch g.store
  have hinsert' : cuda.insert = true := hinsert
  have htype : a.mtype = a.toAllocArgs.mtype := rfl
  rw [toNat_used, htype] at hm
  refine ⟨m.alignAddrGpu, m.alignAddrCpu, ?_, ?_, hgpu, hcpu⟩ <;>
    simp only [memAlloc, hv, hm, hinsert', Bool.true_eq_false, if_false]

end Ledger

end Gpunetio.Placement
