import Gpunetio.Lib.Trace
import Mathlib.Algebra.Group.Nat.Defs
import Mathlib.Data.List.Count
import Mathlib.Logic.Function.Basic

/-!
# The registry of exported UARs

`doca_gpu_verbs_export_uar` registers the UAR of a QP with CUDA and counts, by host address, how
often it has been exported; `doca_gpu_verbs_unexport_uar` takes the device pointer that an export
returned. Addresses are numbers, and null is zero. A mutex is held during both.

* `Uar`, `exportUar`, `unexportUar`: the registry and the two functions, for any outcome of the CUDA
  calls;
* `UarSys`, `UarSys.step`: a history of calls, and the exports not yet unexported;
* `UarSys.Counts`, `UarSys.Right`: what the registry should say, and what a call should do;
* **`UarSys.right_iff`**: the histories in which every call is right;
* `UarSys.wraps_after_failure`.
-/

namespace Gpunetio

open Trace

/-- `doca_error_t`, as far as these functions return it. -/
inductive UarError
  | success
  | invalidValue
  | driver
deriving DecidableEq, Repr

/-- `registered_uar_refcount`, and the host addresses CUDA has registered. -/
structure Uar where
  refcount : ℕ → Option (BitVec 32)
  registered : ℕ → Bool

/-- The outcome of the CUDA calls of an export: `cudaHostRegister`, the pointer of
`cudaHostGetDevicePointer` unless it fails, and `cudaHostUnregister`. -/
structure ExportCuda where
  register : Bool
  map : Option ℕ
  unregister : Bool
deriving DecidableEq, Repr

namespace Uar

/-- Set the count of a key. -/
def setCount (u : Uar) (key : ℕ) (c : Option (BitVec 32)) : Uar :=
  { u with refcount := Function.update u.refcount key c }

/-- Register an address with CUDA, or unregister it. -/
def setRegistered (u : Uar) (key : ℕ) (b : Bool) : Uar :=
  { u with registered := Function.update u.registered key b }

/-- **`doca_gpu_verbs_export_uar`**: its status, `*uar_addr_gpu` if it is written, and the registry.
`outNull` says that `uar_addr_gpu` is null. -/
def exportUar (u : Uar) (sqDb : ℕ) (outNull : Bool) (cuda : ExportCuda) :
    UarError × Option ℕ × Uar :=
  if sqDb = 0 ∨ outNull = true then (.invalidValue, none, u)
  else
    let u := if u.refcount sqDb = none then u.setCount sqDb (some 0) else u
    let count := (u.refcount sqDb).getD 0
    let registered := count = 0
    if registered ∧ cuda.register = false then (.driver, none, u)
    else
      let u := if registered then u.setRegistered sqDb true else u
      match cuda.map with
      | none =>
        (.driver, none,
          if registered ∧ cuda.unregister = true then u.setRegistered sqDb false else u)
      | some ptr => (.success, some ptr, u.setCount sqDb (some (count + 1)))

/-- **`doca_gpu_verbs_unexport_uar`**; `unregister` is the outcome of `cudaHostUnregister`. -/
def unexportUar (u : Uar) (uarAddrGpu : ℕ) (unregister : Bool) : UarError × Uar :=
  if uarAddrGpu = 0 then (.invalidValue, u)
  else
    match u.refcount uarAddrGpu with
    | none => (.invalidValue, u)
    | some c =>
      if c - 1 = 0 then
        let u := u.setCount uarAddrGpu none
        if unregister then (.success, u.setRegistered uarAddrGpu false) else (.driver, u)
      else (.success, u.setCount uarAddrGpu (some (c - 1)))

end Uar

/-- A call. -/
inductive UarEvent
  | exportUar (sqDb : ℕ) (outNull : Bool) (cuda : ExportCuda)
  | unexportUar (uarAddrGpu : ℕ) (unregister : Bool)
deriving DecidableEq, Repr

/-- The registry, and the successful exports not yet unexported: the host address of each and the
device pointer it returned. -/
structure UarSys where
  uar : Uar
  exports : List (ℕ × ℕ)

namespace UarSys

/-- Which export a successful unexport ends: one that returned this very address, of the UAR at the
same host address if there is one. -/
def endExport (addr : ℕ) (l : List (ℕ × ℕ)) : List (ℕ × ℕ) :=
  if (addr, addr) ∈ l then l.erase (addr, addr)
  else l.eraseP fun x => x.2 = addr

/-- **One call.** -/
def step (s : UarSys) : UarEvent → UarSys
  | .exportUar sqDb outNull cuda =>
    let r := s.uar.exportUar sqDb outNull cuda
    { uar := r.2.2
      exports := match r.2.1 with
        | some ptr => (sqDb, ptr) :: s.exports
        | none => s.exports }
  | .unexportUar addr unregister =>
    let r := s.uar.unexportUar addr unregister
    { uar := r.2
      exports := if r.1 = .success then endExport addr s.exports else s.exports }

/-- No UAR has been exported. -/
def empty : UarSys := ⟨⟨fun _ => none, fun _ => false⟩, []⟩

/-- How many exports of a UAR are not yet unexported. -/
def live (s : UarSys) (host : ℕ) : ℕ := s.exports.countP fun x => x.1 = host

/-- What the registry should say. -/
structure Counts (s : UarSys) : Prop where
  count : ∀ host, ((s.uar.refcount host).getD 0).toNat = s.live host
  pos : ∀ host, s.uar.refcount host ≠ some 0
  registered : ∀ host, s.uar.registered host = true ↔ 0 < s.live host

/-- What the registry should say of the UARs that are exported. -/
structure Tallies (s : UarSys) : Prop where
  count : ∀ host, ((s.uar.refcount host).getD 0).toNat = s.live host
  registered : ∀ host, s.uar.registered host = true ↔ 0 < s.live host

/-- What a call should do: leave the registry right; and an unexport should succeed if an export has
returned the address, and otherwise fail and change nothing. -/
def Right (s : UarSys) (e : UarEvent) : Prop :=
  (s.step e).Counts ∧
    match e with
    | .exportUar .. => True
    | .unexportUar addr unregister =>
      if ∃ x ∈ s.exports, x.2 = addr then (s.uar.unexportUar addr unregister).1 = .success
      else (s.uar.unexportUar addr unregister).1 ≠ .success ∧
        (s.uar.unexportUar addr unregister).2 = s.uar

/-- When a call does so. -/
def Meets (s : UarSys) : UarEvent → Prop
  | .exportUar sqDb outNull cuda => sqDb = 0 ∨ outNull = true ∨
      (s.live sqDb = 0 → cuda.register = true ∧ cuda.map ≠ none) ∧
        (cuda.map ≠ none → s.live sqDb + 1 < 2 ^ 32)
  | .unexportUar addr unregister =>
      (addr, addr) ∈ s.exports ∧ (s.live addr = 1 → unregister = true) ∨
        ∀ x ∈ s.exports, x.1 ≠ addr ∧ x.2 ≠ addr

variable {s s' : UarSys} {host : ℕ}

theorem live_pos {x : ℕ × ℕ} (h : x ∈ s.exports) : 0 < s.live x.1 :=
  List.countP_pos_iff.2 ⟨x, h, by simp⟩

theorem Counts.refcount_eq_none (h : s.Counts) (hl : s.live host = 0) :
    s.uar.refcount host = none := by
  have hc := h.count host
  cases hr : s.uar.refcount host with
  | none => rfl
  | some c =>
    rw [hr, hl] at hc
    exact (h.pos host (hr.trans (congrArg some (BitVec.eq_of_toNat_eq hc)))).elim

theorem Counts.tallies (h : s.Counts) : s.Tallies := ⟨h.count, h.registered⟩

theorem Tallies.refcount_eq_some (h : s.Tallies) (hl : 0 < s.live host) :
    ∃ c, s.uar.refcount host = some c ∧ c.toNat = s.live host := by
  have hc := h.count host
  cases hr : s.uar.refcount host with
  | none =>
    rw [hr] at hc
    exact absurd hc (by simp; omega)
  | some c => exact ⟨c, rfl, by rw [hr] at hc; exact hc⟩

/-- A call touches one host address. -/
theorem Tallies.of_host (h : s.Tallies) (host : ℕ) (hother : ∀ k, k ≠ host →
      s'.uar.refcount k = s.uar.refcount k ∧ s'.uar.registered k = s.uar.registered k ∧
        s'.live k = s.live k)
    (hcount : ((s'.uar.refcount host).getD 0).toNat = s'.live host)
    (hreg : s'.uar.registered host = true ↔ 0 < s'.live host) : s'.Tallies where
  count := by
    intro k
    by_cases hk : k = host
    · exact hk ▸ hcount
    · rw [(hother k hk).1, (hother k hk).2.2]
      exact h.count k
  registered := by
    intro k
    by_cases hk : k = host
    · exact hk ▸ hreg
    · rw [(hother k hk).2.1, (hother k hk).2.2]
      exact h.registered k

theorem Counts.of_tallies (h : s.Counts) (ht : s'.Tallies) (host : ℕ)
    (hother : ∀ k, k ≠ host → s'.uar.refcount k = s.uar.refcount k)
    (hpos : s'.uar.refcount host ≠ some 0) : s'.Counts := by
  refine ⟨ht.count, fun k => ?_, ht.registered⟩
  by_cases hk : k = host
  · exact hk ▸ hpos
  · rw [hother k hk]
    exact h.pos k

/-- One more export of a UAR. -/
theorem Tallies.push (h : s.Tallies) {u : Uar} {ptr : ℕ} {c : BitVec 32}
    (hc : c.toNat = s.live host + 1)
    (hcount : u.refcount host = some c ∧ ∀ k, k ≠ host → u.refcount k = s.uar.refcount k)
    (hreg : u.registered host = true ∧ ∀ k, k ≠ host → u.registered k = s.uar.registered k) :
    Tallies ⟨u, (host, ptr) :: s.exports⟩ := by
  have hlive : live ⟨u, (host, ptr) :: s.exports⟩ host = s.live host + 1 := by
    simp [live]
  refine h.of_host host (fun k hk => ⟨hcount.2 k hk, hreg.2 k hk, ?_⟩) ?_ ?_
  · simp [live, Ne.symm hk]
  · rw [hlive, ← hc, hcount.1]
    rfl
  · rw [hlive]
    exact iff_of_true hreg.1 (Nat.succ_pos _)

theorem Counts.push (h : s.Counts) {u : Uar} {ptr : ℕ} {c : BitVec 32}
    (hrc : u.refcount = Function.update s.uar.refcount host (some c))
    (hc : c.toNat = s.live host + 1) (hreg : u.registered host = true)
    (hother : ∀ k, k ≠ host → u.registered k = s.uar.registered k) :
    Counts ⟨u, (host, ptr) :: s.exports⟩ := by
  have hself : u.refcount host = some c := by rw [hrc, Function.update_self]
  have hrest (k : ℕ) (hk : k ≠ host) : u.refcount k = s.uar.refcount k := by
    rw [hrc, Function.update_of_ne hk]
  refine h.of_tallies (h.tallies.push hc ⟨hself, hrest⟩ ⟨hreg, hother⟩) host hrest ?_
  intro hzero
  rw [hself, Option.some.injEq] at hzero
  rw [hzero] at hc
  simp at hc

/-- One export less of a UAR. -/
theorem live_erase {x : ℕ × ℕ} (hx : x ∈ s.exports) (u : Uar) (k : ℕ) :
    live ⟨u, s.exports.erase x⟩ k + (if x.1 = k then 1 else 0) = s.live k := by
  have hperm := (List.perm_cons_erase hx).countP_eq fun x => decide (x.1 = k)
  rw [List.countP_cons] at hperm
  simpa [live] using hperm.symm

section Export

variable {sqDb : ℕ} {cuda : ExportCuda}

/-- The first export of a UAR that a CUDA call fails leaves an entry with count zero. -/
theorem export_first_fails (h0 : sqDb ≠ 0) (hn : s.uar.refcount sqDb = none)
    (hf : ¬ (cuda.register = true ∧ cuda.map ≠ none)) :
    (s.step (.exportUar sqDb false cuda)).uar.refcount sqDb = some 0 := by
  obtain ⟨register, map, unregister⟩ := cuda
  cases register <;> cases map <;> cases unregister <;>
    simp_all [step, Uar.exportUar, Uar.setCount, Uar.setRegistered]

theorem export_first (h0 : sqDb ≠ 0) (hn : s.uar.refcount sqDb = none) {ptr : ℕ}
    (hr : cuda.register = true) (hm : cuda.map = some ptr) :
    s.step (.exportUar sqDb false cuda) =
      ⟨((s.uar.setCount sqDb (some 0)).setRegistered sqDb true).setCount sqDb (some 1),
        (sqDb, ptr) :: s.exports⟩ := by
  simp [step, Uar.exportUar, Uar.setCount, Uar.setRegistered, h0, hn, hr, hm]

/-- A further export that CUDA fails changes nothing. -/
theorem export_again_fails (h0 : sqDb ≠ 0) {c : BitVec 32} (hc : s.uar.refcount sqDb = some c)
    (hc0 : c ≠ 0#32) (hm : cuda.map = none) : s.step (.exportUar sqDb false cuda) = s := by
  simp [step, Uar.exportUar, h0, hc, hc0, hm]

theorem export_again (h0 : sqDb ≠ 0) {c : BitVec 32} (hc : s.uar.refcount sqDb = some c)
    (hc0 : c ≠ 0#32) {ptr : ℕ} (hm : cuda.map = some ptr) :
    s.step (.exportUar sqDb false cuda) =
      ⟨s.uar.setCount sqDb (some (c + 1)), (sqDb, ptr) :: s.exports⟩ := by
  simp [step, Uar.exportUar, h0, hc, hc0, hm]

theorem export_invalid {outNull : Bool} (h : sqDb = 0 ∨ outNull = true) :
    s.step (.exportUar sqDb outNull cuda) = s := by
  simp [step, Uar.exportUar, h]

theorem right_export (h : s.Counts) (outNull : Bool) :
    s.Right (.exportUar sqDb outNull cuda) ↔ s.Meets (.exportUar sqDb outNull cuda) := by
  simp only [Right, and_true, Meets]
  by_cases hinv : sqDb = 0 ∨ outNull = true
  · rw [export_invalid hinv]
    exact iff_of_true h (or_assoc.1 (.inl hinv))
  obtain ⟨h0, ho⟩ := not_or.1 hinv
  obtain rfl : outNull = false := by simpa using ho
  simp only [h0, Bool.false_eq_true, false_or]
  rcases Nat.eq_zero_or_pos (s.live sqDb) with hl | hl
  · have hn := h.refcount_eq_none hl
    by_cases hf : cuda.register = true ∧ cuda.map ≠ none
    · obtain ⟨ptr, hm⟩ := Option.ne_none_iff_exists'.1 hf.2
      rw [export_first h0 hn hf.1 hm]
      refine iff_of_true ?_ ⟨fun _ => hf, fun _ => by omega⟩
      refine h.push (c := 1) ?_ (by rw [hl]; rfl) ?_ fun k hk => ?_
      · simp [Uar.setCount, Uar.setRegistered]
      · simp [Uar.setCount, Uar.setRegistered]
      · simp [Uar.setCount, Uar.setRegistered, hk]
    · exact iff_of_false (fun hc => hc.pos sqDb (export_first_fails h0 hn hf))
        fun hm => hf (hm.1 hl)
  · obtain ⟨c, hc, hcl⟩ := h.tallies.refcount_eq_some hl
    have hc0 : c ≠ 0#32 := by
      rintro rfl
      exact h.pos sqDb hc
    cases hm : cuda.map with
    | none =>
      rw [export_again_fails h0 hc hc0 hm]
      exact iff_of_true h ⟨fun h0 => by omega, fun hne => (hne rfl).elim⟩
    | some ptr =>
      rw [export_again h0 hc hc0 hm]
      have hadd : (c + 1).toNat = (s.live sqDb + 1) % 2 ^ 32 := by
        rw [BitVec.toNat_add, hcl]
        rfl
      have hlt := c.isLt
      by_cases hb : s.live sqDb + 1 < 2 ^ 32
      · refine iff_of_true (h.push rfl ?_ ?_ fun _ _ => rfl) ⟨fun h0 => by omega, fun _ => hb⟩
        · rw [hadd, Nat.mod_eq_of_lt hb]
        · exact (h.registered sqDb).2 hl
      · refine iff_of_false (fun hcnt => hcnt.pos sqDb ?_) fun hmeet => hb (hmeet.2 (by simp))
        have hz : c + 1 = 0#32 := by
          apply BitVec.eq_of_toNat_eq
          rw [hadd, BitVec.toNat_ofNat]
          omega
        exact (Function.update_self ..).trans (congrArg some hz)

end Export

section Unexport

variable {addr : ℕ} {unregister : Bool}

/-- The last export of the UAR at the address ends. -/
theorem unexport_last (h0 : addr ≠ 0) (hc : s.uar.refcount addr = some 1) :
    s.uar.unexportUar addr unregister =
      if unregister then (.success, (s.uar.setCount addr none).setRegistered addr false)
      else (.driver, s.uar.setCount addr none) := by
  simp [Uar.unexportUar, h0, hc]

theorem unexport_more (h0 : addr ≠ 0) {c : BitVec 32} (hc : s.uar.refcount addr = some c)
    (h1 : c ≠ 1#32) : s.uar.unexportUar addr unregister =
      (.success, s.uar.setCount addr (some (c - 1))) := by
  have hne : c - 1#32 ≠ 0#32 := fun h => h1 (by bv_omega)
  simp [Uar.unexportUar, h0, hc, hne]

/-- Nothing is exported at the address. -/
theorem unexport_unknown (hc : s.uar.refcount addr = none) :
    s.uar.unexportUar addr unregister = (.invalidValue, s.uar) := by
  by_cases h0 : addr = 0 <;> simp [Uar.unexportUar, h0, hc]

/-- An unexport ends an export at its own address. -/
theorem Tallies.pop (h : s.Tallies) {u : Uar} (hmem : (addr, addr) ∈ s.exports)
    (hother : ∀ k, k ≠ addr → u.refcount k = s.uar.refcount k ∧ u.registered k = s.uar.registered k)
    (hcount : ((u.refcount addr).getD 0).toNat + 1 = s.live addr)
    (hreg : u.registered addr = true ↔ 1 < s.live addr) :
    Tallies ⟨u, endExport addr s.exports⟩ := by
  have hl : ∀ k, live ⟨u, endExport addr s.exports⟩ k + (if addr = k then 1 else 0) = s.live k := by
    rw [endExport, if_pos hmem]
    exact live_erase hmem u
  have hself := hl addr
  rw [if_pos rfl] at hself
  refine h.of_host addr (fun k hk => ⟨(hother k hk).1, (hother k hk).2, ?_⟩) ?_ ?_
  · have := hl k
    rwa [if_neg (Ne.symm hk)] at this
  · show ((u.refcount addr).getD 0).toNat = _
    omega
  · show u.registered addr = true ↔ _
    rw [hreg]
    omega

theorem Counts.pop (h : s.Counts) {u : Uar} (hmem : (addr, addr) ∈ s.exports)
    (hother : ∀ k, k ≠ addr → u.refcount k = s.uar.refcount k ∧ u.registered k = s.uar.registered k)
    (hcount : ((u.refcount addr).getD 0).toNat + 1 = s.live addr) (hpos : u.refcount addr ≠ some 0)
    (hreg : u.registered addr = true ↔ 1 < s.live addr) :
    Counts ⟨u, endExport addr s.exports⟩ :=
  h.of_tallies (h.tallies.pop hmem hother hcount hreg) addr (fun k hk => (hother k hk).1) hpos

/-- An unexport that finds a host address by accident counts an export of another UAR down. -/
theorem not_counts_of_other (h : s.Counts) {u : Uar} {c : BitVec 32}
    (hne : (addr, addr) ∉ s.exports) (hc : s.uar.refcount addr = some c)
    (hu : ((u.refcount addr).getD 0).toNat + 1 = c.toNat) :
    ¬ Counts ⟨u, endExport addr s.exports⟩ := by
  intro hcnt
  have hlive : live ⟨u, endExport addr s.exports⟩ addr = s.live addr := by
    rw [endExport, if_neg hne, live, live]
    obtain heq | ⟨x, l₁, l₂, -, hx, hl, heq⟩ :=
      List.exists_or_eq_self_of_eraseP (fun x => decide (x.2 = addr)) s.exports
    · rw [heq]
    · have hx' : x.1 ≠ addr := by
        intro hx1
        refine hne ?_
        have hxa : x = (addr, addr) := Prod.ext hx1 (of_decide_eq_true hx)
        rw [hl, hxa]
        exact List.mem_append_right _ List.mem_cons_self
      rw [heq, hl, List.countP_append, List.countP_append,
        List.countP_cons_of_neg (by simpa using hx')]
  have h₁ := hcnt.count addr
  have h₂ := h.count addr
  rw [hlive] at h₁
  rw [hc] at h₂
  simp only [Option.getD_some] at h₁ h₂
  omega

theorem mem_of_meets (h : s.Counts) (hpos : ∀ x ∈ s.exports, x.1 ≠ 0)
    (hmem : (addr, addr) ∈ s.exports) :
    addr ≠ 0 ∧ ∃ c, s.uar.refcount addr = some c ∧ c.toNat = s.live addr ∧ 0 < s.live addr :=
  have hl := live_pos hmem
  have ⟨c, hc, hcl⟩ := h.tallies.refcount_eq_some hl
  ⟨hpos _ hmem, c, hc, hcl, hl⟩

/-- At an export's own address only the unregistration of the last one can go wrong. -/
theorem right_unexport_own (h : s.Counts) (hpos : ∀ x ∈ s.exports, x.1 ≠ 0)
    (hmem : (addr, addr) ∈ s.exports) :
    s.Right (.unexportUar addr unregister) ↔ s.Meets (.unexportUar addr unregister) := by
  have hex : ∃ x ∈ s.exports, x.2 = addr := ⟨_, hmem, rfl⟩
  obtain ⟨h0, c, hc, hcl, hl⟩ := mem_of_meets h hpos hmem
  simp only [Right, step, Meets, hmem, true_and, if_pos hex]
  by_cases h1 : c = 1#32
  · subst h1
    have hl1 : s.live addr = 1 := hcl.symm
    rw [unexport_last h0 hc]
    cases unregister with
    | false =>
      refine iff_of_false (fun hr => ?_) fun hm => ?_
      · cases hr.2
      · exact absurd (hm.resolve_right fun hall => (hall _ hmem).1 rfl) (by simp [hl1])
    | true =>
      refine iff_of_true ⟨?_, rfl⟩ (.inl fun _ => rfl)
      refine h.pop hmem (fun k hk => ?_) ?_ ?_ ?_
      · simp [Uar.setCount, Uar.setRegistered, hk]
      · simp [Uar.setCount, Uar.setRegistered, hl1]
      · simp [Uar.setCount, Uar.setRegistered]
      · simp [Uar.setCount, Uar.setRegistered, hl1]
  · have hlt : 1 < s.live addr := by
      have hne : c.toNat ≠ 1 := fun heq => h1 (BitVec.eq_of_toNat_eq heq)
      omega
    have hsub : (c - 1#32).toNat + 1 = s.live addr := by
      rw [← hcl] at hlt ⊢
      bv_omega
    rw [unexport_more h0 hc h1]
    refine iff_of_true ⟨h.pop hmem (fun k hk => ?_) ?_ ?_ ?_, rfl⟩ (.inl fun heq => by omega)
    · simp [Uar.setCount, hk]
    · simpa [Uar.setCount] using hsub
    · intro heq
      have hz : c - 1#32 = 0#32 := by simpa [Uar.setCount] using heq
      rw [hz] at hsub
      simp at hsub
      omega
    · exact ((h.registered addr).trans ⟨fun _ => hlt, fun _ => hl⟩)

/-- An address that is no key fails, which is right unless an export has returned it. -/
theorem right_unexport_unknown (h : s.Counts) (hmem : (addr, addr) ∉ s.exports)
    (hc : s.uar.refcount addr = none) :
    s.Right (.unexportUar addr unregister) ↔ s.Meets (.unexportUar addr unregister) := by
  simp only [Meets, hmem, false_and, false_or]
  have hl : s.live addr = 0 := by rw [← h.count addr, hc]; rfl
  have hhost : ∀ x ∈ s.exports, x.1 ≠ addr := by
    rintro x hx rfl
    have := live_pos hx
    omega
  by_cases hex : ∃ x ∈ s.exports, x.2 = addr
  · simp only [Right, step, unexport_unknown hc, if_pos hex]
    obtain ⟨x, hx, hxa⟩ := hex
    exact iff_of_false (fun hr => by cases hr.2) fun hall => (hall x hx).2 hxa
  · simp only [Right, step, unexport_unknown hc, if_neg hex]
    exact iff_of_true ⟨h, by decide, trivial⟩
      fun x hx => ⟨hhost x hx, fun hxa => hex ⟨x, hx, hxa⟩⟩

/-- At the key of a UAR whose exports returned other addresses an unexport goes wrong. -/
theorem right_unexport_other (h : s.Counts) (hpos : ∀ x ∈ s.exports, x.1 ≠ 0)
    (hmem : (addr, addr) ∉ s.exports) {c : BitVec 32} (hc : s.uar.refcount addr = some c) :
    s.Right (.unexportUar addr unregister) ↔ s.Meets (.unexportUar addr unregister) := by
  simp only [Meets, hmem, false_and, false_or]
  have hc0 : c ≠ 0#32 := by
    rintro rfl
    exact h.pos addr hc
  have hl : 0 < s.live addr := by
    have hcl := h.count addr
    rw [hc] at hcl
    have : c.toNat ≠ 0 := fun h0 => hc0 (BitVec.eq_of_toNat_eq h0)
    simp only [Option.getD_some] at hcl
    omega
  obtain ⟨x, hx, hxa⟩ := List.countP_pos_iff.1 hl
  obtain rfl : x.1 = addr := of_decide_eq_true hxa
  have h0 := hpos x hx
  refine iff_of_false (fun hr => ?_) fun hall => (hall x hx).1 rfl
  obtain ⟨hcnt, hr⟩ := hr
  by_cases h1 : c = 1#32
  · subst h1
    simp only [step, unexport_last h0 hc] at hcnt hr
    cases unregister with
    | false =>
      split at hr
      · cases hr
      · have := congrArg (fun u => u.refcount x.1) hr.2
        simp [Uar.setCount, hc] at this
    | true =>
      split at hr
      · exact not_counts_of_other h hmem hc (by simp [Uar.setCount, Uar.setRegistered]) hcnt
      · exact hr.1 rfl
  · simp only [step, unexport_more h0 hc h1] at hcnt hr
    split at hr
    · refine not_counts_of_other h hmem hc ?_ hcnt
      have : (c - 1#32).toNat + 1 = c.toNat := by bv_omega
      simpa [Uar.setCount] using this
    · exact hr.1 rfl

theorem right_unexport (h : s.Counts) (hpos : ∀ x ∈ s.exports, x.1 ≠ 0) :
    s.Right (.unexportUar addr unregister) ↔ s.Meets (.unexportUar addr unregister) := by
  by_cases hmem : (addr, addr) ∈ s.exports
  · exact right_unexport_own h hpos hmem
  · cases hc : s.uar.refcount addr with
    | none => exact right_unexport_unknown h hmem hc
    | some c => exact right_unexport_other h hpos hmem hc

end Unexport

/-- What right calls keep. -/
structure Inv (s : UarSys) : Prop where
  counts : s.Counts
  pos : ∀ x ∈ s.exports, x.1 ≠ 0

theorem right_step (h : s.Inv) (e : UarEvent) : s.Right e ↔ s.Meets e := by
  cases e with
  | exportUar sqDb outNull cuda => exact right_export h.counts outNull
  | unexportUar addr unregister => exact right_unexport h.counts h.pos

theorem endExport_subset {addr : ℕ} {l : List (ℕ × ℕ)} : endExport addr l ⊆ l := by
  unfold endExport
  split
  · exact List.erase_subset
  · exact List.eraseP_subset

/-- Only addresses that are not null are exported. -/
theorem pos_step (h : ∀ x ∈ s.exports, x.1 ≠ 0) (e : UarEvent) :
    ∀ x ∈ (s.step e).exports, x.1 ≠ 0 := by
  cases e with
  | exportUar sqDb outNull cuda =>
    by_cases hinv : sqDb = 0 ∨ outNull = true
    · rw [export_invalid hinv]
      exact h
    · simp only [step]
      split
      · exact List.forall_mem_cons.2 ⟨fun h0 => hinv (.inl h0), h⟩
      · exact h
  | unexportUar addr unregister =>
    simp only [step]
    split
    · exact fun x hx => h x (endExport_subset hx)
    · exact h

/-- **When every call is right.** Along any history of exports and unexports, with any outcome of
the CUDA calls and any device pointers, every call is right if and only if each meets the
condition: the first export of a UAR does not fail and none counts beyond 32 bits; an unexport
names the address of a UAR that an export returned unchanged, and the unregistration of the last
one does not fail, or it names an address that no outstanding export is of or has returned. -/
theorem right_iff (es : List UarEvent) : Along step Right empty es ↔ Along step Meets empty es := by
  have hempty : empty.Inv := ⟨⟨fun _ => rfl, fun _ => nofun, fun _ => by simp [empty, live]⟩, nofun⟩
  refine along_iff hempty (fun s e h => right_step h e) fun s e h hm => ?_
  exact ⟨((right_step h e).2 hm).1, pos_step h.pos e⟩

/-- CUDA refuses the registration: the count stays at zero and the next unexport makes it wrap. -/
theorem wraps_after_failure :
    ¬ Along step Right empty [.exportUar 1 false ⟨false, none, true⟩, .unexportUar 1 true] ∧
      (run step empty [.exportUar 1 false ⟨false, none, true⟩]).uar.refcount 1 = some 0 ∧
      ((run step empty [.exportUar 1 false ⟨false, none, true⟩]).uar.unexportUar 1 true).1 =
        .success ∧
      (run step empty
        [.exportUar 1 false ⟨false, none, true⟩, .unexportUar 1 true]).uar.refcount 1 =
        some (BitVec.ofNat 32 (2 ^ 32 - 1)) := by
  refine ⟨fun h => ?_, by decide, by decide, by decide⟩
  exact h.1.1.pos 1 (by decide)

end UarSys

end Gpunetio
