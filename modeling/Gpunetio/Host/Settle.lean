import Gpunetio.Host.Accounts

/-!
# Every account is settled

A call under way has resources in hand that are on no account yet, or no longer. Each of the calls
it makes into the heap, the memory and the registry of UARs changes what it has in hand, and it ends
with nothing in hand.

* `UarSys.Tallies.exported`, `UarSys.Tallies.unexported`, `MemSys.keys_free`: one call into the
  registry or the memory;
* `ExportSys.Inv`: the balance of a call under way, and what the pointers of each QP stand for;
* `ExportSys.Inv.allocated`, `ExportSys.Inv.freed`, `ExportSys.Inv.opened`, `ExportSys.Inv.closed`,
  `ExportSys.Inv.gathered`, `ExportSys.Inv.scattered`: what a call does with what it has in hand;
* `ExportSys.Inv.step`, **`ExportSys.right_of_meets`**: the histories in which every call is right;
  `ExportSys.word_leaks_copy_dangles`.
-/

namespace Gpunetio

open Custody Trace

/-! ## The registry -/

namespace UarSys

variable {s s' : UarSys} {host sqDb : ℕ}

/-- The exports grow by one if a pointer is written. -/
theorem step_export_exports (sqDb : ℕ) (cuda : ExportCuda) :
    (s.step (.exportUar sqDb false cuda)).exports =
      ((s.uar.exportUar sqDb false cuda).2.1.map fun p => (sqDb, p)).toList ++ s.exports := by
  rw [step]
  cases (s.uar.exportUar sqDb false cuda).2.1 <;> rfl

/-- An export of a UAR, from the count it finds. -/
theorem exportUar_eq {u : Uar} {cuda : ExportCuda} (h0 : sqDb ≠ 0) {c : BitVec 32}
    (hc : (u.refcount sqDb).getD 0 = c) :
    u.exportUar sqDb false cuda =
      let u' := u.setCount sqDb (some c)
      if c = 0 ∧ cuda.register = false then (.driver, none, u')
      else
        match cuda.map with
        | none => (.driver, none, if c = 0 then u'.setRegistered sqDb (!cuda.unregister) else u')
        | some p =>
          (.success, some p,
            (if c = 0 then u'.setRegistered sqDb true else u').setCount sqDb (some (c + 1))) := by
  have hu : (if u.refcount sqDb = none then u.setCount sqDb (some 0) else u) =
      u.setCount sqDb (some c) := by
    cases hr : u.refcount sqDb with
    | none =>
      rw [hr] at hc
      rw [if_pos rfl, ← hc]
      rfl
    | some d =>
      rw [hr] at hc
      obtain rfl : d = c := hc
      rw [if_neg (Option.some_ne_none d), Uar.setCount, ← hr, Function.update_eq_self]
  have hself : (u.setCount sqDb (some c)).refcount sqDb = some c := Function.update_self ..
  rw [Uar.exportUar, if_neg (by simp [h0]), hu]
  simp only [hself, Option.getD_some]
  obtain ⟨register, map, unregister⟩ := cuda
  by_cases hz : c = 0#32 <;> cases register <;> cases map <;> cases unregister <;>
    simp [hz, Uar.setRegistered]

/-- An export that fails leaves the tallies if it leaves the UAR registered or not as before. -/
theorem Tallies.same (h : s.Tallies) {u : Uar} {c : BitVec 32} (hc : c.toNat = s.live host)
    (hcount : u.refcount = Function.update s.uar.refcount host (some c))
    (hother : ∀ k, k ≠ host → u.registered k = s.uar.registered k)
    (hreg : u.registered host = true ↔ 0 < s.live host) : Tallies ⟨u, s.exports⟩ := by
  refine h.of_host host (fun k hk => ⟨?_, hother k hk, rfl⟩) ?_ hreg
  · show u.refcount k = _
    rw [hcount, Function.update_of_ne hk]
  · show ((u.refcount host).getD 0).toNat = s.live host
    rw [hcount, Function.update_self]
    exact hc

/-- **An export of a UAR** that is undone when it fails keeps the tallies. -/
theorem Tallies.exported (h : s.Tallies) {cuda : ExportCuda}
    (hm : ExportSys.ExportUarMeets s sqDb cuda) :
    (s.step (.exportUar sqDb false cuda)).Tallies := by
  by_cases h0 : sqDb = 0
  · rw [export_invalid (.inl h0)]
    exact h
  obtain ⟨c, hc⟩ : ∃ c, (s.uar.refcount sqDb).getD 0 = c := ⟨_, rfl⟩
  have hcl : c.toNat = s.live sqDb := hc ▸ h.count sqDb
  have hz : c = 0 ↔ s.live sqDb = 0 := by
    rw [← hcl]
    exact ⟨fun h => h ▸ rfl, fun h => BitVec.eq_of_toNat_eq h⟩
  have hm := hm h0
  have hreg := h.registered sqDb
  obtain ⟨register, map, unregister⟩ := cuda
  simp only [step, exportUar_eq h0 hc]
  by_cases hf : c = 0 ∧ register = false
  · simp only [if_pos hf]
    exact h.same hcl rfl (fun _ _ => rfl) hreg
  have hm := hm fun hl => by
    simpa using fun hr => hf ⟨hz.2 hl, hr⟩
  cases map with
  | none =>
    simp only [if_neg hf]
    by_cases hc0 : c = 0
    · obtain rfl : unregister = true := hm (hz.1 hc0)
      simp only [if_pos hc0]
      refine h.same hcl rfl (fun k hk => Function.update_of_ne hk ..) ?_
      rw [hz.1 hc0]
      exact iff_of_false (by simp [Uar.setRegistered]) (lt_irrefl 0)
    · simp only [if_neg hc0]
      exact h.same hcl rfl (fun _ _ => rfl) hreg
  | some p =>
    simp only [if_neg hf]
    have hadd : (c + 1).toNat = s.live sqDb + 1 := by
      have hb : s.live sqDb + 1 < 2 ^ 32 := hm
      rw [← hcl] at hb ⊢
      bv_omega
    refine h.push hadd ⟨Function.update_self .., fun k hk => ?_⟩ ?_
    · split <;> simp [Uar.setCount, Uar.setRegistered, hk]
    · by_cases hc0 : c = 0
      · rw [if_pos hc0]
        exact ⟨Function.update_self .., fun k hk => Function.update_of_ne hk ..⟩
      · rw [if_neg hc0]
        exact ⟨hreg.2 (Nat.pos_of_ne_zero fun hl => hc0 (hz.2 hl)), fun _ _ => rfl⟩

/-- **An un-export of a UAR** by its host address ends an export of it. -/
theorem Tallies.unexported (h : s.Tallies) {x : ℕ × ℕ} {unregister : Bool} (hx : x ∈ s.exports)
    (h0 : x.1 ≠ 0) (hm : ExportSys.UnexportUarMeets s x unregister) :
    (s.step (.unexportUar x.2 unregister)).Tallies ∧
      s.exports.Perm (x :: (s.step (.unexportUar x.2 unregister)).exports) := by
  obtain ⟨addr, ptr⟩ := x
  obtain ⟨rfl, hlast⟩ : ptr = addr ∧ (s.live addr = 1 → unregister = true) := hm
  have hl : 0 < s.live ptr := live_pos hx
  obtain ⟨c, hc, hcl⟩ := h.refcount_eq_some hl
  have hperm : s.exports.Perm ((ptr, ptr) :: endExport ptr s.exports) := by
    rw [endExport, if_pos hx]
    exact List.perm_cons_erase hx
  by_cases h1 : c = 1#32
  · subst h1
    have hl1 : s.live ptr = 1 := hcl.symm
    obtain rfl := hlast hl1
    simp only [step, unexport_last h0 hc, if_true]
    refine ⟨h.pop hx (fun k hk => ?_) ?_ ?_, hperm⟩
    · simp [Uar.setCount, Uar.setRegistered, hk]
    · simp [Uar.setCount, Uar.setRegistered, hl1]
    · simp [Uar.setCount, Uar.setRegistered, hl1]
  · have hlt : 1 < s.live ptr := by
      have hne : c.toNat ≠ 1 := fun heq => h1 (BitVec.eq_of_toNat_eq heq)
      omega
    have hsub : (c - 1#32).toNat + 1 = s.live ptr := by
      rw [← hcl] at hlt ⊢
      bv_omega
    simp only [step, unexport_more h0 hc h1, if_true]
    refine ⟨h.pop hx (fun k hk => ?_) ?_ ?_, hperm⟩
    · simp [Uar.setCount, hk]
    · simpa [Uar.setCount] using hsub
    · exact (h.registered ptr).trans (iff_of_true hl hlt)

end UarSys

/-! ## The memory -/

namespace MemSys

variable {gdrcopy : Bool} {pageSize p : ℕ} {s : MemSys} {cuda : FreeCuda}

/-- A `mem_free` that meets its condition takes one key away. -/
theorem keys_free (h : s.Inv gdrcopy) (hp : p ∈ s.keys)
    (hm : s.Meets gdrcopy pageSize (.memFree false p cuda)) :
    s.keys.Perm (p :: (s.step gdrcopy pageSize (.memFree false p cuda)).keys) := by
  obtain ⟨m, hmt⟩ := Option.ne_none_iff_exists'.1 ((h.balanced.mtable p).2 hp)
  have hkeys : (s.step gdrcopy pageSize (.memFree false p cuda)).keys = s.keys.erase p := by
    have hnodup : s.keys.Nodup := h.balanced.keys
    rw [step_free (hm rfl m hmt).1 hmt, hnodup.erase_eq_filter, keys, keys, List.filter_map]
    refine congrArg _ (List.filter_congr fun x _ => ?_)
    simp [bne, beq_eq_decide]
  rw [hkeys]
  exact List.perm_cons_erase hp

variable (pageSize) in
/-- A `mem_free` leaves the other entries. -/
theorem mtable_free {q : ℕ} (hne : p ≠ q) :
    (s.step gdrcopy pageSize (.memFree false q cuda)).mem.mtable p = s.mem.mtable p := by
  by_cases hq : q = 0
  · simp [step, Gpunetio.memFree, hq]
  · cases hm : s.mem.mtable q <;> simp [step, Gpunetio.memFree, hq, hm, hne]

end MemSys

/-! ## A call under way -/

namespace ExportSys

variable {gdrcopy : Bool} {pageSize : ℕ}

/-- The pointers of an exported QP stand for what it has acquired, or for its place in an array. -/
structure QpOk (acc : Account) (belongs : ℕ → Prop) (e : GpuVerbsQp) : Prop where
  proxy : e.nicHandler = .cpuProxy →
    acc.uar = none ∧ ∃ gpu cpu, acc.word = some gpu ∧ e.cpuDb = some ⟨gpu, cpu⟩
  direct : e.nicHandler ≠ .cpuProxy → acc.word = none ∧ (∃ host, acc.uar = some (host, e.sqDb)) ∧
    (e.cpuDb ≠ none → e.sendDbrModeExt = .noDbrSwEmulated)
  cpuDb : ∀ p, e.cpuDb = some p → belongs p.alloc
  qpGpu : ∀ p, e.qpGpu = some p → belongs p.alloc

/-- The balance, with these heap blocks, UAR exports and allocations in hand. -/
structure Inv (gdrcopy : Bool) (b : List HeapBlock) (u : List (ℕ × ℕ)) (k : List ℕ)
    (s : ExportSys) : Prop where
  heap : s.heap.Holds (b ++ s.live.flatMap blocks)
  uar : s.uar.exports.Perm (u ++ s.live.flatMap fun w => (s.account w).uar.toList)
  tallies : s.uar.Tallies
  hosts : ∀ x ∈ s.uar.exports, x.1 ≠ 0
  mem : s.mem.Inv gdrcopy
  keys : s.mem.keys.Perm
    (k ++ s.arrays.map Prod.fst ++ s.live.flatMap fun w => (s.account w).allocs)
  nodup : s.live.Nodup
  fresh : ∀ w ∈ s.live, w < s.next
  live : ∀ w, w ∈ s.live ↔ s.qp w ≠ none
  qpOk : ∀ w e, s.qp w = some e → QpOk (s.account w) (s.Belongs w) e

variable {s : ExportSys} {b : List HeapBlock} {u : List (ℕ × ℕ)} {k : List ℕ}

theorem Inv.balanced (h : s.Inv gdrcopy [] [] []) : s.Balanced :=
  ⟨h.heap, h.uar, h.tallies, h.mem.balanced, h.keys.trans List.perm_append_comm⟩

/-- What belongs to an exported QP is allocated. -/
theorem Inv.mem_keys (h : s.Inv gdrcopy b u k) {w p : ℕ} (hw : w ∈ s.live) (hp : s.Belongs w p) :
    p ∈ s.mem.keys := by
  refine h.keys.mem_iff.2 ?_
  obtain hp | ⟨x, hx, rfl, -⟩ := hp
  · exact List.mem_append_right _ (List.mem_flatMap.2 ⟨w, hw, hp⟩)
  · exact List.mem_append_left _ (List.mem_append_right _ (List.mem_map_of_mem hx))

theorem Inv.points (h : s.Inv gdrcopy b u k) : s.PointsOk := by
  intro w hw e he p hp
  have hb : s.Belongs w p.alloc := hp.elim ((h.qpOk w e he).cpuDb p) ((h.qpOk w e he).qpGpu p)
  exact ⟨h.mem_keys hw hb, hb⟩

/-! ### Calls into the heap, the registry and the memory -/

theorem Inv.acquired (h : s.Inv gdrcopy b u k) (x : HeapBlock) :
    Inv gdrcopy (x :: b) u k { s with heap := s.heap.acquire x } :=
  { h with heap := h.heap.acquire }

theorem Inv.released {x : HeapBlock} (h : s.Inv gdrcopy (x :: b) u k) :
    Inv gdrcopy b u k { s with heap := s.heap.release x true } :=
  { h with heap := Store.Holds.release h.heap }

theorem Inv.exportFails {w : ℕ} (h : s.Inv gdrcopy (blocks w ++ b) u k) :
    (s.exportFails w).Inv gdrcopy b u k := by
  have hcpu : Inv gdrcopy (.gverbs w :: b) u k { s with heap := s.heap.release (.qpCpu w) true } :=
    Inv.released h
  exact hcpu.released

section Uar

variable {sqDb : ℕ} {cuda : ExportCuda}

theorem Inv.exportedUar (h : s.Inv gdrcopy b u k) (hm : ExportUarMeets s.uar sqDb cuda) :
    Inv gdrcopy b
      (((s.uar.uar.exportUar sqDb false cuda).2.1.map fun p => (sqDb, p)).toList ++ u) k
      { s with uar := s.uar.step (.exportUar sqDb false cuda) } := by
  refine { h with
    uar := ?_
    tallies := h.tallies.exported hm
    hosts := UarSys.pos_step h.hosts _ }
  rw [UarSys.step_export_exports, List.append_assoc]
  exact h.uar.append_left _

theorem Inv.unexportedUar {x : ℕ × ℕ} {unregister : Bool} (h : s.Inv gdrcopy b (x :: u) k)
    (hm : UnexportUarMeets s.uar x unregister) :
    (s.unexportedUar x.2 unregister).Inv gdrcopy b u k := by
  have hx : x ∈ s.uar.exports := h.uar.mem_iff.2 List.mem_cons_self
  obtain ⟨htallies, hperm⟩ := h.tallies.unexported hx (h.hosts x hx) hm
  exact { h with
    uar := (hperm.symm.trans h.uar).cons_inv
    tallies := htallies
    hosts := UarSys.pos_step h.hosts _ }

end Uar

section Mem

variable {a : AllocArgs} {cuda : AllocCuda} {free : FreeCuda}

/-- An allocation adds its key, if it succeeds. -/
theorem keys_allocated (s : ExportSys) (a : AllocArgs) (cuda : AllocCuda) :
    (s.allocated gdrcopy pageSize a cuda).mem.keys =
      ((s.memAlloc gdrcopy pageSize a cuda).getRight?.map Prod.fst).toList ++ s.mem.keys := by
  simp only [allocated, memAlloc, MemSys.step, MemSys.keys]
  obtain ⟨status, o, g⟩ := Gpunetio.memAlloc gdrcopy pageSize a cuda s.mem.mem
  cases status <;> cases o <;> rfl

theorem Inv.allocated (h : s.Inv gdrcopy b u k)
    (hm : s.mem.Meets gdrcopy pageSize (.memAlloc a cuda)) :
    (s.allocated gdrcopy pageSize a cuda).Inv gdrcopy b u
      (((s.memAlloc gdrcopy pageSize a cuda).getRight?.map Prod.fst).toList ++ k) := by
  refine { h with
    mem := MemSys.alloc_entry h.mem hm
    keys := ?_ }
  rw [keys_allocated, List.append_assoc, List.append_assoc, ← List.append_assoc k]
  exact h.keys.append_left _

/-- An allocation that meets its condition does not write its pointers and fail. -/
theorem memAlloc_ne_lost (hm : s.mem.Meets gdrcopy pageSize (.memAlloc a cuda)) (p : ℕ × ℕ) :
    s.memAlloc gdrcopy pageSize a cuda ≠ .inl (some p) := by
  rw [memAlloc, Gpunetio.memAlloc]
  cases hv : a.valid pageSize with
  | false => simp
  | true =>
    have hm := hm hv
    cases hbr : (allocBranch (a.used pageSize) cuda s.mem.mem.store gdrcopy a.mtype).1 with
    | none => simp [hbr]
    | some m =>
      have hinsert : cuda.insert = true := ((allocBranch_some s.mem hbr).2.1 hm).1
      simp [hbr, hinsert]

theorem Inv.freed {p : ℕ} (h : s.Inv gdrcopy b u (p :: k))
    (hm : s.mem.Meets gdrcopy pageSize (.memFree false p free)) :
    (s.freed gdrcopy pageSize p free).Inv gdrcopy b u k := by
  have hp : p ∈ s.mem.keys := h.keys.mem_iff.2 (by simp)
  exact { h with
    mem := MemSys.free_entry h.mem hm
    keys := ((MemSys.keys_free h.mem hp hm).symm.trans h.keys).cons_inv }

end Mem

/-! ### Accounts and pointers -/

theorem QpOk.mono {acc acc' : Account} {belongs belongs' : ℕ → Prop} {e : GpuVerbsQp}
    (h : QpOk acc belongs e) (hword : acc'.word = acc.word) (huar : acc'.uar = acc.uar)
    (hb : ∀ p, belongs p → belongs' p) : QpOk acc' belongs' e where
  proxy := by
    rw [hword, huar]
    exact h.proxy
  direct := by
    rw [hword, huar]
    exact h.direct
  cpuDb := fun p hp => hb _ (h.cpuDb p hp)
  qpGpu := fun p hp => hb _ (h.qpGpu p hp)

/-- The device copy of a QP is put in memory that belongs to it. -/
theorem QpOk.moved {acc : Account} {belongs : ℕ → Prop} {e e' : GpuVerbsQp} {gpu x y : ℕ}
    (h : QpOk acc belongs e) (hnew : belongs gpu) (hmode : e'.sendDbrModeExt = e.sendDbrModeExt)
    (hnic : e'.nicHandler = e.nicHandler) (hsq : e'.sqDb = e.sqDb)
    (hgpu : e'.qpGpu = some ⟨gpu, x⟩)
    (hdb : e'.cpuDb = if e.Assisted then some ⟨gpu, y⟩ else e.cpuDb) : QpOk acc belongs e' := by
  refine ⟨fun hp => ?_, fun hn => ?_, fun p hp => ?_, fun p hp => ?_⟩
  · rw [hnic] at hp
    rw [hdb, if_neg fun ha => ha.2 hp]
    exact h.proxy hp
  · rw [hnic] at hn
    obtain ⟨hword, huar, hemu⟩ := h.direct hn
    rw [hsq, hmode, hdb]
    refine ⟨hword, huar, fun hne => ?_⟩
    by_cases ha : e.Assisted
    · exact ha.1
    · rw [if_neg ha] at hne
      exact hemu hne
  · rw [hdb] at hp
    by_cases ha : e.Assisted
    · rw [if_pos ha] at hp
      cases hp
      exact hnew
    · rw [if_neg ha] at hp
      exact h.cpuDb p hp
  · rw [hgpu] at hp
    cases hp
    exact hnew

theorem Inv.of_perm {k' : List ℕ} (h : s.Inv gdrcopy b u k) (hk : k.Perm k') :
    s.Inv gdrcopy b u k' :=
  { h with keys := h.keys.trans ((hk.append_right _).append_right _) }

/-- **What a call has in hand goes on the account of a new QP.** -/
theorem Inv.opened {w : ℕ} {e : GpuVerbsQp} (acc : Account)
    (h : s.Inv gdrcopy (blocks w) acc.uar.toList acc.allocs) (hlt : w < s.next) (hw : w ∉ s.live)
    (hok : QpOk acc (· ∈ acc.allocs) e) : (s.exported w e acc).Inv gdrcopy [] [] [] := by
  have hacc : Function.update s.account w acc w = acc := Function.update_self ..
  have hother {v : ℕ} (hv : v ≠ w) : Function.update s.account w acc v = s.account v :=
    Function.update_of_ne hv ..
  have hne {v : ℕ} (hv : v ∈ s.live) : v ≠ w := fun heq => hw (heq ▸ hv)
  refine { h with
    heap := h.heap
    uar := ?_
    keys := ?_
    nodup := List.nodup_cons.2 ⟨hw, h.nodup⟩
    fresh := List.forall_mem_cons.2 ⟨hlt, h.fresh⟩
    live := fun v => ?_
    qpOk := fun v d hd => ?_ }
  · have hopen := perm_open (t := []) (l := s.live) (w := w)
      (g := fun v => (Function.update s.account w acc v).uar.toList)
      (congrArg (fun a => a.uar.toList) hacc)
      fun v hv => congrArg (fun a => a.uar.toList) (hother (hne hv))
    rw [List.append_nil] at hopen
    exact h.uar.trans hopen
  · exact h.keys.trans (perm_open (congrArg _ hacc) fun v hv => congrArg _ (hother (hne hv)))
  · by_cases hv : v = w
    · subst hv
      exact iff_of_true List.mem_cons_self (by simp [exported])
    · have hlive := h.live v
      simpa [exported, hv] using hlive
  · by_cases hv : v = w
    · subst hv
      obtain rfl : e = d := by simpa [exported] using hd
      refine hok.mono (congrArg _ hacc) (congrArg _ hacc) fun p hp => .inl ?_
      exact (congrArg (p ∈ ·.allocs) hacc).mpr hp
    · have hd : s.qp v = some d := by simpa [exported, hv] using hd
      refine (h.qpOk v d hd).mono (congrArg _ (hother hv)) (congrArg _ (hother hv)) fun p hp => ?_
      exact hp.imp_left (congrArg (p ∈ ·.allocs) (hother hv)).mpr

/-- **A QP is gone, and what it has acquired is in hand.** -/
theorem Inv.closed {w : ℕ} (h : s.Inv gdrcopy [] [] []) (hw : w ∈ s.live) :
    Inv gdrcopy (blocks w) (s.account w).uar.toList (s.account w).allocs
      { s with qp := Function.update s.qp w none, live := s.live.erase w } := by
  refine { h with
    heap := ?_
    uar := ?_
    keys := ?_
    nodup := h.nodup.erase w
    fresh := fun v hv => h.fresh v (List.mem_of_mem_erase hv)
    live := fun v => ?_
    qpOk := fun v d hd => ?_ }
  · have hclose := perm_close (f := blocks) (t := []) hw
    rw [List.append_nil] at hclose
    exact h.heap.of_perm hclose
  · have hclose := perm_close (f := fun v => (s.account v).uar.toList) (t := []) hw
    rw [List.append_nil] at hclose
    exact h.uar.trans hclose
  · exact h.keys.trans (perm_close (f := fun v => (s.account v).allocs) hw)
  · rw [h.nodup.mem_erase_iff]
    by_cases hv : v = w
    · simp [hv]
    · have hlive := h.live v
      simpa [hv] using hlive
  · obtain ⟨-, hd⟩ | ⟨-, hd⟩ := Transition.update_eq_some.1 hd
    · cases hd
    · exact h.qpOk v d hd

/-- A QP gets new pointers. -/
theorem Inv.pointed {w : ℕ} {e : GpuVerbsQp} (h : s.Inv gdrcopy b u k) (hw : w ∈ s.live)
    (hok : QpOk (s.account w) (s.Belongs w) e) :
    Inv gdrcopy b u k { s with qp := Function.update s.qp w (some e) } := by
  refine { h with
    live := fun v => ?_
    qpOk := fun v d hd => ?_ }
  · by_cases hv : v = w
    · subst hv
      exact iff_of_true hw (by simp)
    · have hlive := h.live v
      simpa [hv] using hlive
  · obtain ⟨rfl, hde⟩ | ⟨-, hd⟩ := Transition.update_eq_some.1 hd
    · exact Option.some.inj hde ▸ hok
    · exact h.qpOk v d hd

/-- An allocation in hand goes on the account of an exported QP. -/
theorem Inv.credited {w gpu : ℕ} (h : s.Inv gdrcopy b u (gpu :: k)) (hw : w ∈ s.live) :
    Inv gdrcopy b u k { s with
      account := Function.update s.account w
        { s.account w with copies := gpu :: (s.account w).copies } } := by
  have hother {v : ℕ} (hv : v ≠ w) : Function.update s.account w
      { s.account w with copies := gpu :: (s.account w).copies } v = s.account v :=
    Function.update_of_ne hv ..
  refine { h with
    uar := ?_
    keys := ?_
    qpOk := fun v d hd => ?_ }
  · refine h.uar.trans (List.Perm.of_eq (congrArg _ (List.flatMap_congr fun v _ => ?_)))
    by_cases hv : v = w
    · subst hv
      simp
    · simp [hv]
  · refine h.keys.trans (perm_credit h.nodup hw (by simp [Account.allocs]) fun v _ hv => ?_)
    exact congrArg _ (hother hv)
  · by_cases hv : v = w
    · subst hv
      refine (h.qpOk v d hd).mono (by simp) (by simp) fun p hp => hp.imp_left fun hp => ?_
      simp only [Function.update_self, Account.allocs, List.cons_append] at hp ⊢
      exact List.mem_cons_of_mem _ hp
    · refine (h.qpOk v d hd).mono (congrArg _ (hother hv)) (congrArg _ (hother hv)) fun p hp => ?_
      exact hp.imp_left (congrArg (p ∈ ·.allocs) (hother hv)).mpr

/-! ### Arrays -/

section Arrays

variable {gpu cpu : ℕ} {qps : List ℕ} {w : ℕ} {e : GpuVerbsQp}

theorem place_fields (gpu cpu i : ℕ) (e : GpuVerbsQp) :
    (place gpu cpu i e).sendDbrModeExt = e.sendDbrModeExt ∧
      (place gpu cpu i e).nicHandler = e.nicHandler ∧ (place gpu cpu i e).sqDb = e.sqDb ∧
      (place gpu cpu i e).qpGpu = some ⟨gpu, gpu + devQpSize * i⟩ ∧
      (place gpu cpu i e).cpuDb =
        if e.Assisted then some ⟨gpu, cpu + devQpSize * i + sqWqePiOffset⟩ else e.cpuDb := by
  rw [place]
  split <;> simp [*]

theorem place_place (i j : ℕ) (e : GpuVerbsQp) :
    place gpu cpu i (place gpu cpu j e) = place gpu cpu i e := by
  have hiff : (place gpu cpu j e).Assisted ↔ e.Assisted := by
    obtain ⟨hmode, hnic, -⟩ := place_fields gpu cpu j e
    rw [GpuVerbsQp.Assisted, GpuVerbsQp.Assisted, hmode, hnic]
  by_cases ha : e.Assisted
  · rw [place, if_pos (hiff.2 ha), place, place, if_pos ha, if_pos ha]
  · rw [place, if_neg (mt hiff.1 ha), place, place, if_neg ha, if_neg ha]

theorem map_place_place (gpu cpu i j : ℕ) (d : Option GpuVerbsQp) :
    (d.map (place gpu cpu j)).map (place gpu cpu i) = d.map (place gpu cpu i) := by
  cases d with
  | none => rfl
  | some e => exact congrArg some (place_place i j e)

theorem placeAll_of_notMem {qp : ℕ → Option GpuVerbsQp} (h : w ∉ qps) :
    placeAll gpu cpu qps qp w = qp w :=
  Loop.each_of_notMem (by rwa [List.zipIdx_map_fst])

theorem placeAll_of_mem (gpu cpu : ℕ) (qp : ℕ → Option GpuVerbsQp) (h : w ∈ qps) :
    ∃ i, placeAll gpu cpu qps qp w = (qp w).map (place gpu cpu i) := by
  obtain ⟨⟨r, i⟩, -, rfl, hall⟩ :=
    Loop.each_of_mem (fun x y d => map_place_place gpu cpu x.2 y.2 d) (s := qp)
      (show w ∈ qps.zipIdx.map Prod.fst by rwa [List.zipIdx_map_fst])
  exact ⟨i, hall⟩

/-- **A multi-export places its QPs in an array in hand.** -/
theorem Inv.gathered (h : s.Inv gdrcopy b u (gpu :: k)) (cpu : ℕ) (qps : List ℕ) :
    Inv gdrcopy b u k
      { s with qp := placeAll gpu cpu qps s.qp, arrays := (gpu, qps) :: s.arrays } := by
  have hgrows (v p : ℕ) : s.Belongs v p →
      Belongs { s with qp := placeAll gpu cpu qps s.qp, arrays := (gpu, qps) :: s.arrays } v p :=
    Or.imp_right fun ⟨x, hx, hxp⟩ => ⟨x, List.mem_cons_of_mem _ hx, hxp⟩
  refine { h with
    keys := h.keys.trans (List.perm_middle.symm.append_right _)
    live := fun v => ?_
    qpOk := fun v d hd => ?_ }
  · refine (h.live v).trans ?_
    by_cases hv : v ∈ qps
    · obtain ⟨i, hall⟩ := placeAll_of_mem gpu cpu s.qp hv
      simp [hall]
    · simp [placeAll_of_notMem hv]
  · by_cases hv : v ∈ qps
    · obtain ⟨i, hall⟩ := placeAll_of_mem gpu cpu s.qp hv
      obtain ⟨e, he, rfl⟩ := Option.map_eq_some_iff.1 (hall.symm.trans hd)
      obtain ⟨hmode, hnic, hsq, hgpu, hdb⟩ := place_fields gpu cpu i e
      exact ((h.qpOk v e he).mono rfl rfl (hgrows v)).moved
        (.inr ⟨(gpu, qps), List.mem_cons_self, rfl, hv⟩) hmode hnic hsq hgpu hdb
    · exact (h.qpOk v d ((placeAll_of_notMem hv).symm.trans hd)).mono rfl rfl (hgrows v)

/-- **A multi-export is un-exported**, and its array is in hand. -/
theorem Inv.scattered (h : s.Inv gdrcopy b u k) (hx : (gpu, qps) ∈ s.arrays)
    (hdb : ∀ w ∈ s.live, ∀ e, s.qp w = some e → ∀ p, e.cpuDb = some p → p.alloc ≠ gpu) :
    Inv gdrcopy b u (gpu :: k) { s with
      qp := fun w =>
        if w ∈ qps then (s.qp w).map fun e => { e with qpGpu := none, qpGpuH := none } else s.qp w
      arrays := s.arrays.erase (gpu, qps) } := by
  have hkept {v p : ℕ} (hb : s.Belongs v p) (hne : p ≠ gpu ∨ v ∉ qps) :
      p ∈ (s.account v).allocs ∨ ∃ x ∈ s.arrays.erase (gpu, qps), x.1 = p ∧ v ∈ x.2 := by
    refine hb.imp_right fun ⟨x, hxa, hxp, hxv⟩ => ⟨x, ?_, hxp, hxv⟩
    refine (List.mem_erase_of_ne fun heq => ?_).2 hxa
    subst heq
    exact hne.elim (fun hp => hp hxp.symm) fun hv => hv hxv
  refine { h with
    keys := ?_
    live := fun v => ?_
    qpOk := fun v d hd => ?_ }
  · refine h.keys.trans (List.Perm.append_right _ ?_)
    exact (((List.perm_cons_erase hx).map Prod.fst).append_left k).trans List.perm_middle
  · refine (h.live v).trans ?_
    by_cases hv : v ∈ qps <;> simp [hv]
  · by_cases hv : v ∈ qps
    · obtain ⟨e, he, rfl⟩ := Option.map_eq_some_iff.1 ((if_pos hv).symm.trans hd)
      have hok := h.qpOk v e he
      have hlive : v ∈ s.live := (h.live v).2 (by simp [he])
      exact ⟨hok.proxy, hok.direct, fun p hp =>
        hkept (hok.cpuDb p hp) (.inl (hdb v hlive e he p hp)), nofun⟩
    · have hok := h.qpOk v d ((if_neg hv).symm.trans hd)
      exact hok.mono rfl rfl fun p hp => hkept hp (.inr hv)

end Arrays

/-! ### The functions -/

section Functions

variable {w : ℕ} {a : ExportCall}

theorem Inv.exportProxy (h : s.Inv gdrcopy (blocks w) [] []) (hlt : w < s.next) (hw : w ∉ s.live)
    (hm : s.ProxyMeets gdrcopy pageSize a) :
    (s.exportProxy gdrcopy pageSize w a).Inv gdrcopy [] [] [] := by
  have halloc := h.allocated hm.1
  rw [ExportSys.exportProxy]
  cases hr : s.memAlloc gdrcopy pageSize (wordArgs pageSize) a.word with
  | inl o =>
    rw [hr] at halloc
    exact halloc.exportFails
  | inr p =>
    rw [hr] at halloc
    simp only [hm.2 p hr, Bool.true_eq_false, if_false]
    refine Inv.opened ⟨some p.1, none, []⟩ halloc hlt hw ?_
    refine ⟨fun _ => ⟨rfl, p.1, p.2, rfl, rfl⟩, fun hn => (hn rfl).elim, fun q hq => ?_, nofun⟩
    cases hq
    exact List.mem_singleton_self _

theorem chosen_ne_cpuProxy {m : SendDbrMode} (h : a.nicHandler ≠ .cpuProxy) :
    a.chosen m ≠ .cpuProxy := by
  rw [ExportCall.chosen]
  split
  · split <;> nofun
  · exact h

theorem Inv.exportDb {m : SendDbrMode} {sqDb : ℕ} (h : s.Inv gdrcopy (blocks w) [] [])
    (hlt : w < s.next) (hw : w ∉ s.live)
    (hm : if a.nicHandler = .cpuProxy then s.ProxyMeets gdrcopy pageSize a
      else
        ExportUarMeets s.uar sqDb a.uar ∧
          match (s.uar.uar.exportUar sqDb false a.uar).2.1 with
          | none => a.nicHandler = .auto → s.ProxyMeets gdrcopy pageSize a
          | some p => a.cqDbrAddr = false →
            UnexportUarMeets (s.uar.step (.exportUar sqDb false a.uar)) (sqDb, p) a.unregister) :
    (s.exportDb gdrcopy pageSize w m sqDb a).Inv gdrcopy [] [] [] := by
  rw [ExportSys.exportDb]
  by_cases hn : a.nicHandler = .cpuProxy
  · rw [if_pos hn] at hm ⊢
    exact h.exportProxy hlt hw hm
  rw [if_neg hn] at hm ⊢
  obtain ⟨hexp, hm⟩ := hm
  have huar := h.exportedUar hexp
  cases hr : (s.uar.uar.exportUar sqDb false a.uar).2.1 with
  | none =>
    rw [hr] at hm huar
    by_cases hauto : a.nicHandler = .auto
    · simp only [if_pos hauto]
      exact huar.exportProxy hlt hw (hm hauto)
    · simp only [if_neg hauto]
      exact huar.exportFails
  | some p =>
    rw [hr] at hm huar
    cases hcq : a.cqDbrAddr with
    | false =>
      -- the un-export takes place: the pointer is the host address, and that is not null
      have hun := huar.unexportedUar (x := (sqDb, p)) (hm hcq)
      have hp : p ≠ 0 := by
        have heq : p = sqDb := (hm hcq).1
        exact heq ▸ huar.hosts (sqDb, p) (huar.uar.mem_iff.2 List.mem_cons_self)
      simp only [if_true, if_pos hp]
      exact hun.exportFails
    | true =>
      simp only [Bool.true_eq_false, if_false]
      refine Inv.opened ⟨none, some (sqDb, p), []⟩ huar hlt hw ?_
      exact ⟨fun hc => (chosen_ne_cpuProxy hn hc).elim,
        fun _ => ⟨rfl, ⟨sqDb, rfl⟩, fun hne => (hne rfl).elim⟩, nofun, nofun⟩

theorem Inv.exportQp (h : s.Inv gdrcopy [] [] []) (hm : s.ExportMeets gdrcopy pageSize a) :
    (s.exportQp gdrcopy pageSize a).Inv gdrcopy [] [] [] := by
  rw [ExportSys.exportQp]
  by_cases hskip : a.refused gdrcopy || !a.calloc
  · rw [if_pos hskip]
    exact h
  rw [if_neg hskip]
  obtain ⟨hrefused, hcalloc⟩ : a.refused gdrcopy = false ∧ a.calloc = true := by
    simpa using hskip
  have hnext : Inv gdrcopy [] [] [] { s with next := s.next + 1 } :=
    { h with fresh := fun w hw => (h.fresh w hw).trans (Nat.lt_succ_self _) }
  have hgverbs := hnext.acquired (.gverbs s.next)
  cases hcpu : a.callocQpCpu with
  | false =>
    simp only [if_true]
    exact hgverbs.released
  | true =>
    have hcpuBlock := hgverbs.acquired (.qpCpu s.next)
    simp only [Bool.true_eq_false, if_false]
    cases hf : a.found with
    | none => exact hcpuBlock.exportFails
    | some x =>
      have hw : s.next ∉ s.live := fun hw => lt_irrefl _ (h.fresh _ hw)
      exact hcpuBlock.exportDb (Nat.lt_succ_self _) hw (hm hrefused hcalloc hcpu x.1 x.2 hf)

theorem Inv.getQpDev {cuda : AllocCuda} {memcpy : Bool} {free : FreeCuda}
    (h : s.Inv gdrcopy [] [] []) (hm : s.Meets gdrcopy pageSize (.getQpDev w cuda memcpy free)) :
    (s.getQpDev gdrcopy pageSize w cuda memcpy free).Inv gdrcopy [] [] [] := by
  rw [ExportSys.getQpDev]
  cases he : s.qp w with
  | none => exact h
  | some e =>
    by_cases hgpu : e.qpGpu ≠ none
    · simp only [if_pos hgpu]
      exact h
    simp only [if_neg hgpu]
    have hw : w ∈ s.live := (h.live w).2 (by simp [he])
    have hok := h.qpOk w e he
    obtain ⟨halloc, hfree⟩ := hm e he (not_not.1 hgpu)
    have hnew := h.allocated halloc
    cases hr : s.memAlloc gdrcopy pageSize (copyArgs pageSize e.sendDbrModeExt) cuda with
    | inl o =>
      rw [hr] at hnew
      cases o with
      | none => exact hnew
      | some p => exact (memAlloc_ne_lost halloc p hr).elim
    | inr p =>
      rw [hr] at hnew
      cases memcpy with
      | false =>
        have hback := hnew.freed (hfree rfl p hr)
        exact hback.pointed hw ⟨hok.proxy, hok.direct, hok.cpuDb, nofun⟩
      | true =>
        have hcredit := hnew.credited hw
        simp only [Bool.true_eq_false, if_false]
        refine hcredit.pointed hw ((hcredit.qpOk w e he).moved (.inl ?_) rfl rfl rfl rfl rfl)
        simp [Account.allocs]

theorem Inv.exportMultiQpsDev {qps : List ℕ} {cuda : AllocCuda} {calloc memcpy : Bool}
    {free : FreeCuda} (h : s.Inv gdrcopy [] [] [])
    (hm : s.Meets gdrcopy pageSize (.exportMultiQpsDev qps cuda calloc memcpy free)) :
    (s.exportMultiQpsDev gdrcopy pageSize qps cuda calloc memcpy free).Inv gdrcopy [] [] [] := by
  rw [ExportSys.exportMultiQpsDev]
  by_cases hqps : qps = []
  · rw [if_pos hqps]
    exact h
  rw [if_neg hqps]
  obtain ⟨halloc, hrest⟩ := hm hqps
  have hnew := h.allocated halloc
  cases hr : s.memAlloc gdrcopy pageSize (arrayArgs qps.length (s.needCpuMapping qps)) cuda with
  | inl o =>
    rw [hr] at hnew
    cases o with
    | none =>
      simp only [hr]
      exact hnew
    | some p => exact (memAlloc_ne_lost halloc p hr).elim
  | inr p =>
    rw [hr] at hnew
    obtain ⟨rfl, rfl⟩ := hrest p hr
    simp only [hr, Bool.true_eq_false, if_false]
    exact hnew.gathered p.2 qps

theorem Inv.unexportMultiQpsDev {qps : List ℕ} {qpGpus : ℕ} {free : FreeCuda}
    (h : s.Inv gdrcopy [] [] []) (hx : (qpGpus, qps) ∈ s.arrays)
    (hm : s.Meets gdrcopy pageSize (.unexportMultiQpsDev qps qpGpus free)) :
    (s.unexportMultiQpsDev gdrcopy pageSize qps qpGpus free).Inv gdrcopy [] [] [] := by
  rw [ExportSys.unexportMultiQpsDev]
  by_cases hnull : qps = [] ∨ qpGpus = 0
  · rw [if_pos hnull]
    exact h
  rw [if_neg hnull]
  have harray := h.scattered hx hm.2
  exact harray.freed hm.1

/-- Before its device copy is freed, a QP with the CPU proxy gives back its word. -/
theorem unexportDb_proxy {e : GpuVerbsQp} {p : MemPtr} (hn : e.nicHandler = .cpuProxy)
    (hdb : e.cpuDb = some p) (word : FreeCuda) (unregister : Bool) :
    s.unexportDb gdrcopy pageSize w e word unregister =
      { s.freed gdrcopy pageSize p.addr word with heap := s.heap.release (.qpCpu w) true } := by
  have hor : e.sendDbrModeExt ≠ .noDbrSwEmulated ∨ e.nicHandler = .cpuProxy := .inr hn
  simp only [unexportDb, hdb, if_pos hor, if_neg (not_not.2 hn)]
  rfl

/-- Any other gives back its UAR export. -/
theorem unexportDb_direct {e : GpuVerbsQp} (hn : e.nicHandler ≠ .cpuProxy)
    (hdb : e.cpuDb ≠ none → e.sendDbrModeExt = .noDbrSwEmulated) (word : FreeCuda)
    (unregister : Bool) :
    s.unexportDb gdrcopy pageSize w e word unregister =
      { s.unexportedUar e.sqDb unregister with heap := s.heap.release (.qpCpu w) true } := by
  cases hd : e.cpuDb with
  | none =>
    simp only [unexportDb, hd, if_pos hn]
    rfl
  | some p =>
    have hnor : ¬ (e.sendDbrModeExt ≠ .noDbrSwEmulated ∨ e.nicHandler = .cpuProxy) :=
      not_or.2 ⟨not_not.2 (hdb (by simp [hd])), hn⟩
    simp only [unexportDb, hd, if_neg hnor, if_pos hn]
    rfl

/-- The last part of an un-export releases the device copy and the wrapper. -/
theorem Inv.unexportCopy {qpGpu : Option MemPtr} {copy : FreeCuda}
    (h : Inv gdrcopy [.gverbs w] [] (qpGpu.map MemPtr.addr).toList
      { s with qp := Function.update s.qp w none, live := s.live.erase w })
    (hm : ∀ p, qpGpu = some p → s.mem.Meets gdrcopy pageSize (.memFree false p.addr copy)) :
    (s.unexportCopy gdrcopy pageSize w qpGpu copy).Inv gdrcopy [] [] [] := by
  cases qpGpu with
  | none => exact h.released
  | some p =>
    have hfree := Inv.freed h (hm p rfl)
    exact hfree.released

theorem Inv.unexportQp {word copy : FreeCuda} {unregister : Bool} (h : s.Inv gdrcopy [] [] [])
    (hw : w ∈ s.live) (hm : s.Meets gdrcopy pageSize (.unexportQp w word copy unregister)) :
    (s.unexportQp gdrcopy pageSize w word copy unregister).Inv gdrcopy [] [] [] := by
  rw [ExportSys.unexportQp]
  cases he : s.qp w with
  | none => exact h
  | some e =>
    have hok := h.qpOk w e he
    obtain ⟨hword, huar, hcopies, hcopy⟩ := hm e he
    have hclosed := h.closed hw
    by_cases hn : e.nicHandler = .cpuProxy
    · obtain ⟨hnone, gpu, cpu, hgpu, hdb⟩ := hok.proxy hn
      obtain ⟨rfl, hfree⟩ : cpu = gpu ∧ _ := hword hn _ hdb
      have hallocs : (s.account w).allocs.Perm (cpu :: (s.account w).copies) := by
        rw [Account.allocs, hgpu]
        exact List.perm_append_comm
      have hfirst := hclosed.of_perm hallocs
      rw [hnone, hcopies] at hfirst
      -- the copy is another allocation than the word
      have hne : ∀ p, e.qpGpu = some p → p.addr ≠ cpu := by
        rintro p hp rfl
        have hnodup := hfirst.keys.nodup_iff.1 hfirst.mem.balanced.keys
        simp [hp] at hnodup
      have hcpu := (Inv.freed hfirst hfree).released
      simp only [unexportDb_proxy hn hdb]
      refine Inv.unexportCopy hcpu fun p hp => ?_
      exact fun _ m hmt =>
        hcopy p hp rfl m ((MemSys.mtable_free pageSize (hne p hp)).symm.trans hmt)
    · obtain ⟨hnone, ⟨host, hexp⟩, hemu⟩ := hok.direct hn
      have hallocs : (s.account w).allocs = (s.account w).copies := by
        rw [Account.allocs, hnone]
        exact List.append_nil _
      rw [hallocs, hexp, hcopies] at hclosed
      have hcpu := (Inv.unexportedUar hclosed (huar _ hexp)).released
      simp only [unexportDb_direct hn hemu]
      exact Inv.unexportCopy hcpu hcopy

/-- **Every call keeps the balance**, if it meets its condition. -/
theorem Inv.step {event : ExportEvent} (h : s.Inv gdrcopy [] [] []) (hl : s.Legal event)
    (hm : s.Meets gdrcopy pageSize event) :
    (s.step gdrcopy pageSize event).Inv gdrcopy [] [] [] := by
  cases event with
  | exportQp a => exact h.exportQp hm
  | getQpDev w cuda memcpy free => exact h.getQpDev hm
  | exportMultiQpsDev qps cuda calloc memcpy free => exact h.exportMultiQpsDev hm
  | unexportMultiQpsDev qps qpGpus free => exact h.unexportMultiQpsDev hl hm
  | unexportQp w word copy unregister => exact h.unexportQp hl.1 hm

end Functions

theorem Inv.empty : empty.Inv gdrcopy [] [] [] where
  heap := ⟨.refl _, rfl⟩
  uar := .refl _
  tallies := ⟨fun _ => rfl, fun _ => by simp [ExportSys.empty, UarSys.empty, UarSys.live]⟩
  hosts := nofun
  mem := ⟨⟨List.nodup_nil, fun _ => by simp [ExportSys.empty, MemSys.empty], ⟨.refl _, rfl⟩⟩, nofun⟩
  keys := .refl _
  nodup := List.nodup_nil
  fresh := nofun
  live := fun _ => by simp [ExportSys.empty]
  qpOk := nofun

/-- **When every account is settled.** Along any history of legal calls, for any handlers and modes
and any outcomes of the calls they make, exactly what the exported QPs have acquired is held, and
nothing they point to has been released, if each call meets its condition: its calls into the memory
and the registry do, an export does not fail once it has its word, a multi-export does not fail once
it has its array, no `cpu_db` points into an array that is un-exported, and at the end the device
addresses of the word and the UAR are their host addresses and `qp_gpu` is the only own copy. -/
theorem right_of_meets (gdrcopy : Bool) (pageSize : ℕ) {es : List ExportEvent}
    (h : Along (step gdrcopy pageSize) (fun s e => s.Legal e ∧ s.Meets gdrcopy pageSize e)
      empty es) :
    Along (step gdrcopy pageSize) (Right gdrcopy pageSize) empty es :=
  h.of_invariant (I := Inv gdrcopy [] [] []) Inv.empty fun s e hs hc => by
    have hnext := hs.step hc.1 hc.2
    exact ⟨⟨hnext.balanced, hnext.points⟩, hnext⟩

/-- A QP with the CPU proxy, by a word whose device address is its host address, is exported, gets a
device copy and is un-exported, and nothing fails. -/
theorem right_of_proxy_run :
    let cuda : AllocCuda :=
      ⟨some 65536, true, true, none, true, none, none, true, some 4096, true, some 4096, true, true⟩
    let free : FreeCuda := ⟨true, true, true, true⟩
    let a : ExportCall := ⟨false, .cpuProxy, .validDbr, true, true, some .dbrValid, some 8192,
      ⟨true, none, true⟩, cuda, true, true⟩
    Along (step true 4096) (Right true 4096) empty
      [.exportQp a, .getQpDev 0 cuda true free, .unexportQp 0 free free true] := by
  intro cuda free a
  have hqp : (step true 4096 empty (.exportQp a)).qp 0 =
      some ⟨.validDbr, some ⟨4096, 4096⟩, .cpuProxy, 4096, none, none⟩ := by decide
  have hqp' : (run (step true 4096) empty [.exportQp a, .getQpDev 0 cuda true free]).qp 0 =
      some ⟨.validDbr, some ⟨4096, 4096⟩, .cpuProxy, 4096, some ⟨65536, 65536⟩, none⟩ := by decide
  have hword : (run (step true 4096) empty
      [.exportQp a, .getQpDev 0 cuda true free]).mem.mem.mtable 4096 =
        some ⟨.cpuGpu, 4096, 4096, 4096, none⟩ := by decide
  have huar : ((run (step true 4096) empty
      [.exportQp a, .getQpDev 0 cuda true free]).account 0).uar = none := by decide
  have hcopy : (run (step true 4096) empty
      [.exportQp a, .getQpDev 0 cuda true free]).mem.mem.mtable 65536 =
        some ⟨.gpu, 65536, 65536, 0, none⟩ := by decide
  refine right_of_meets true 4096 ⟨⟨trivial, ?_⟩, ⟨by decide, ?_⟩, ⟨by decide, ?_⟩, trivial⟩
  · intro _ _ _ m sqDb _
    rw [if_pos rfl]
    exact ⟨fun _ _ _ => ⟨rfl, rfl⟩, fun _ _ => rfl⟩
  · intro e he _
    obtain rfl := Option.some.inj (hqp.symm.trans he)
    refine ⟨fun _ p hp => ?_, nofun⟩
    obtain rfl := Option.some.inj hp
    exact ⟨rfl, by decide⟩
  · intro e he
    obtain rfl := Option.some.inj (hqp'.symm.trans he)
    refine ⟨fun _ p hp => ?_, fun x hx => ?_, by decide, fun p hp => ?_⟩
    · obtain rfl := Option.some.inj hp
      refine ⟨rfl, fun _ m hm => ?_⟩
      obtain rfl := Option.some.inj (hword.symm.trans hm)
      exact ⟨by decide, rfl⟩
    · cases huar.symm.trans hx
    · obtain rfl := Option.some.inj hp
      intro _ m hm
      obtain rfl := Option.some.inj (hcopy.symm.trans hm)
      exact ⟨by decide, rfl⟩

/-- An export whose word has been allocated fails: the QP is not exported, and the word is still
held. And a QP in the software-emulated mode is un-exported from its array: nothing fails, the QP is
exported and its `cpu_db` points to the array, which has been freed. -/
theorem word_leaks_copy_dangles :
    let cuda : AllocCuda := ⟨some 65536, true, true, some 1, true, some 2, some 3, true, some 4096,
      true, some 4096, true, true⟩
    let free : FreeCuda := ⟨true, true, true, true⟩
    let a : ExportCall := ⟨false, .cpuProxy, .validDbr, true, true, some .dbrValid, some 8192,
      ⟨true, some 8192, true⟩, cuda, false, true⟩
    let a' : ExportCall := { a with
      nicHandler := .gpuSmNoDbr, sendDbrModeExt := .noDbrSwEmulated, sendDbrMode := some .noDbrExt
      cqDbrAddr := true }
    let es : List ExportEvent := [.exportQp a]
    let es' : List ExportEvent :=
      [.exportQp a', .exportMultiQpsDev [0] cuda true true free,
        .unexportMultiQpsDev [0] 65536 free]
    (Along (step true 4096) Legal empty es ∧ ¬ Along (step true 4096) (Right true 4096) empty es) ∧
      Along (step true 4096) Legal empty es' ∧
      ¬ Along (step true 4096) (Right true 4096) empty es' := by
  intro cuda free a a' es es'
  refine ⟨⟨⟨trivial, trivial⟩, fun h => ?_⟩, ⟨trivial, ?_, ?_, trivial⟩, fun h => ?_⟩
  · exact absurd h.1.1.keys.length_eq (by decide)
  · decide
  · decide
  · obtain ⟨-, -, ⟨-, hpoints⟩, -⟩ := h
    have hqp : (run (step true 4096) empty es').qp 0 =
        some ⟨.noDbrSwEmulated, some ⟨65536, 19⟩, .gpuSmNoDbr, 8192, none, none⟩ := by decide
    exact absurd (hpoints 0 (by decide) _ hqp _ (.inl rfl)).1 (by decide)

end ExportSys

end Gpunetio
