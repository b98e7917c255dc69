import Gpunetio.Door.Multi
import Mathlib.Data.Set.Finite.Basic
import Mathlib.Data.Finset.Max

/-!
# The locks of several queue pairs

`submit_db_multi_qps` takes the `sq_lock` of its QPs in the order of its array and releases none
before it holds them all. Whether threads can block each other for ever depends only on the arrays
they may call with.

* `MultiSys.Holds`, `MultiSys.Spins`, `MultiSys.Deadlock`: threads that wait for each other's locks;
* `MultiSys.StepIn`: the steps of threads that call with given arrays only;
* `LockCycle`: places in the arrays at which threads wait for each other;
* `MultiSys.Deadlock.lockCycle`: a deadlock stops its threads at such places;
  `MultiSys.reachable_at`: a run leads to any such places;
* **`MultiSys.deadlock_free_iff`**: no run deadlocks exactly if the arrays have no lock cycle;
* `LockCycle.duplicate`, `LockCycle.not_of_ordered`: a repeated QP is a cycle, one order for all
  arrays excludes cycles.
-/

namespace Gpunetio

open Transition Relation

variable {Q T : Type*}

/-- The QPs of a call, in the order of its array. -/
def Running.qps (r : Running Q) : List Q := r.entries.map Prod.fst

namespace MultiSys

/-- Thread `t` holds `sq_lock` of `q`: it is past the lock of an entry on `q` and has not unlocked
it. -/
def Holds (s : MultiSys Q T) (t : T) (q : Q) : Prop :=
  ∃ r j c st, s.thread t = some r ∧ r.entries[j]? = some (q, c) ∧ r.stage j = some (some st)

/-- Thread `t` spins on `sq_lock` of `q`. -/
def Spins (s : MultiSys Q T) (t : T) (q : Q) : Prop :=
  ∃ r c, s.thread t = some r ∧ r.at? = none ∧ r.entries[r.i]? = some (q, c)

/-- **A lock deadlock**: each thread of `D` holds the lock of some QP and spins on a lock that a
thread of `D` holds. -/
def Deadlock (s : MultiSys Q T) (D : Set T) : Prop :=
  D.Nonempty ∧ ∀ t ∈ D, (∃ q, s.Holds t q) ∧ ∃ q, s.Spins t q ∧ ∃ u ∈ D, s.Holds u q

/-- The steps of threads that call with the arrays they `may` call with. -/
def StepIn [DecidableEq Q] [DecidableEq T] (may : T → List Q → Prop) (tma : Bool)
    (qpnDs : Q → BitVec 32) (s s' : MultiSys Q T) : Prop :=
  Step tma qpnDs s s' ∧ ∀ t r, s.thread t = none → s'.thread t = some r → may t r.qps

end MultiSys

/-- **A lock cycle**: each thread `t` of `D` may call with `qps t`, the QPs before place `i t` are
all different, and the QP at place `i t` is one of them for some thread of `D`. -/
structure LockCycle (may : T → List Q → Prop) (D : Finset T) (qps : T → List Q) (i : T → ℕ) :
    Prop where
  nonempty : D.Nonempty
  may : ∀ t ∈ D, may t (qps t)
  pos : ∀ t ∈ D, 0 < i t
  nodup : ∀ t ∈ D, ((qps t).take (i t)).Nodup
  disjoint : ∀ t ∈ D, ∀ u ∈ D, ∀ q ∈ (qps t).take (i t), q ∈ (qps u).take (i u) → t = u
  next : ∀ t ∈ D, ∃ q, (qps t)[i t]? = some q ∧ ∃ u ∈ D, q ∈ (qps u).take (i u)

namespace LockCycle

variable {may : T → List Q → Prop} {D : Finset T} {qps : T → List Q} {i : T → ℕ}

/-- An array that lists a QP twice is a cycle of one thread. -/
theorem duplicate {t : T} {l : List Q} (ht : may t l) (hl : ¬ l.Nodup) :
    ∃ D qps i, LockCycle may D qps i := by
  classical
  -- the shortest prefix with a repetition
  obtain ⟨k, hk, hmin⟩ := Nat.findX (p := fun k => ¬ (l.take k).Nodup)
    ⟨l.length, by rwa [List.take_length]⟩
  have hk₀ : k ≠ 0 := by rintro rfl; simp at hk
  obtain ⟨j, rfl⟩ := Nat.exists_eq_succ_of_ne_zero hk₀
  have hj : (l.take j).Nodup := not_not.1 (hmin j j.lt_succ_self)
  have hjl : j < l.length := by
    by_contra hle
    rw [List.take_of_length_le (by omega)] at hk hj
    exact hk hj
  have hmem : l[j] ∈ l.take j := by
    rw [List.take_succ_eq_append_getElem hjl] at hk
    by_contra hnot
    exact hk (List.nodup_append.2 ⟨hj, List.nodup_singleton _, fun a ha b hb hab => by
      rw [List.mem_singleton.1 hb] at hab
      exact hnot (hab ▸ ha)⟩)
  refine ⟨{t}, fun _ => l, fun _ => j, ⟨t, by simp⟩, ?_, fun _ _ => ?_, fun _ _ => hj, ?_, ?_⟩
  · rintro u hu
    rwa [Finset.mem_singleton.1 hu]
  · rcases Nat.eq_zero_or_pos j with rfl | hpos
    · simp at hmem
    · exact hpos
  · intro u hu v hv _ _ _
    rw [Finset.mem_singleton.1 hu, Finset.mem_singleton.1 hv]
  · exact fun u hu => ⟨l[j], List.getElem?_eq_getElem hjl, u, hu, hmem⟩

/-- Arrays that follow one order of the QPs have no cycle. -/
theorem not_of_ordered {R : Type*} [LinearOrder R] (rank : Q → R)
    (hmay : ∀ t l, may t l → l.Pairwise fun a b => rank a < rank b) :
    ¬ LockCycle may D qps i := by
  intro h
  obtain ⟨t₀, ht₀⟩ := h.nonempty
  have : Nonempty Q := ⟨(h.next t₀ ht₀).choose⟩
  have : Nonempty T := ⟨t₀⟩
  choose! q hq u hu hmem using h.next
  -- the thread that waits for the last QP in the order
  obtain ⟨t, ht, hmax⟩ := D.exists_max_image (fun t => rank (q t)) h.nonempty
  obtain ⟨k, hk, hget⟩ := List.getElem_of_mem (hmem t ht)
  rw [List.length_take] at hk
  rw [List.getElem_take] at hget
  obtain ⟨hlen, hnext⟩ := List.getElem?_eq_some_iff.1 (hq (u t) (hu t ht))
  have hlt := List.pairwise_iff_getElem.1 (hmay _ _ (h.may (u t) (hu t ht))) k (i (u t))
    (by omega) hlen (by omega)
  rw [hget, hnext] at hlt
  exact absurd (hmax (u t) (hu t ht)) (not_le.2 hlt)

end LockCycle

namespace MultiSys

variable [DecidableEq Q] [DecidableEq T] {may : T → List Q → Prop} {tma : Bool}
  {qpnDs : Q → BitVec 32} {s s' : MultiSys Q T}

/-- A step moves one thread, which keeps its array. -/
theorem Step.moves (h : Step tma qpnDs s s') :
    ∃ t o, s'.thread = Function.update s.thread t o ∧
      ∀ r r', s.thread t = some r → o = some r' → r'.entries = r.entries := by
  cases h with
  | call t op ht => exact ⟨t, _, rfl, fun r _ hr => by rw [ht] at hr; cases hr⟩
  | @acquire t r q c ht =>
    refine ⟨t, _, rfl, fun r₁ r' hr hr' => ?_⟩
    cases hr'
    rw [ht] at hr; cases hr
    rfl
  | @exec t r q c st ht =>
    refine ⟨t, _, rfl, fun r₁ r' hr hr' => ?_⟩
    rw [ht] at hr; cases hr
    exact Running.advance_entries hr'

/-- In every run only finitely many threads have called, with arrays they may call with. -/
structure Called (may : T → List Q → Prop) (s : MultiSys Q T) : Prop where
  finite : {t | s.thread t ≠ none}.Finite
  may : ∀ t r, s.thread t = some r → may t r.qps

omit [DecidableEq Q] [DecidableEq T] in
theorem Called.init (h : Init s) : s.Called may where
  finite := by simp [h.thread]
  may := by simp [h.thread]

theorem Called.step (h : s.Called may) (hs : StepIn may tma qpnDs s s') : s'.Called may := by
  obtain ⟨t, o, hthread, hkeep⟩ := hs.1.moves
  refine ⟨(h.finite.insert t).subset fun u hu => ?_, fun u r hr => ?_⟩
  · rcases eq_or_ne u t with rfl | hut
    · exact Set.mem_insert ..
    · rw [Set.mem_ofPred_eq, hthread, Function.update_of_ne hut] at hu
      exact Set.mem_insert_of_mem _ hu
  · cases hu : s.thread u with
    | none => exact hs.2 u r hu hr
    | some r₀ =>
      rw [hthread] at hr
      obtain ⟨rfl, hr'⟩ | ⟨-, hr⟩ := update_eq_some.1 hr
      · rw [Running.qps, hkeep r₀ r hu hr']
        exact h.may u r₀ hu
      · exact h.may u r hr

theorem reachable_called (h : Reachable Init (StepIn may tma qpnDs) s) :
    Reachable Init (Step tma qpnDs) s ∧ s.Called may :=
  ⟨h.simulate id (fun _ h => h) fun _ _ _ _ hs => .single hs.1,
    h.invariant (fun _ => Called.init) fun _ _ => Called.step⟩

/-- Two entries that are past the lock of one QP are the same. -/
theorem stage_unique (h : Reachable Init (Step tma qpnDs) s) {q : Q} {t u : T} {r r' : Running Q}
    {j k : ℕ} {c c' : SubmitCall} {st st' : Stage} (ht : s.thread t = some r)
    (hu : s.thread u = some r') (hj : r.entries[j]? = some (q, c))
    (hk : r'.entries[k]? = some (q, c')) (hst : r.stage j = some (some st))
    (hst' : r'.stage k = some (some st')) : t = u ∧ j = k := by
  have hinv := SubmitSys.reachable_inv (reachable_on h q)
  have hcj : (s.on q).call (t, j) = some (c, some st) := by simp [on, ht, Running.callOn, hj, hst]
  have hck : (s.on q).call (u, k) = some (c', some st') := by
    simp [on, hu, Running.callOn, hk, hst']
  obtain ⟨-, -, huniq⟩ := hinv.holder (t, j) c st hcj
  exact Prod.mk.injEq .. ▸ (huniq (u, k) c' st' hck).symm

/-- The lock that a thread spins on in vain is taken. -/
theorem Holds.sqLock (h : Reachable Init (Step tma qpnDs) s) {t : T} {q : Q} (hh : s.Holds t q) :
    (s.door q).sqLock = true := by
  obtain ⟨r, j, c, st, ht, hj, hst⟩ := hh
  have hc : (s.on q).call (t, j) = some (c, some st) := by simp [on, ht, Running.callOn, hj, hst]
  exact ((SubmitSys.reachable_inv (reachable_on h q)).holder _ _ _ hc).1

omit [DecidableEq Q] [DecidableEq T] in
/-- A spinning thread is past the locks of the entries before its own. -/
theorem stage_spinning {r : Running Q} (hat : r.at? = none) {j : ℕ} :
    (∃ st, r.stage j = some (some st)) ↔ j < r.i := by
  rw [Running.stage_first (by simp [Running.inFirst, hat])]
  rcases lt_trichotomy j r.i with hj | rfl | hj
  · simp [hj, hj.ne]
  · simp [hat]
  · simp [hj.ne', hj.not_gt]

omit [DecidableEq Q] [DecidableEq T] in
theorem holds_iff {t : T} {r : Running Q} (ht : s.thread t = some r) (hat : r.at? = none) {q : Q} :
    s.Holds t q ↔ q ∈ r.qps.take r.i := by
  rw [List.mem_take_iff_getElem]
  constructor
  · rintro ⟨r', j, c, st, ht', hj, hst⟩
    obtain rfl : r' = r := Option.some.inj (ht' ▸ ht)
    obtain ⟨hlen, hget⟩ := List.getElem?_eq_some_iff.1 hj
    have hlt := (stage_spinning hat).1 ⟨st, hst⟩
    exact ⟨j, by rw [Running.qps, List.length_map]; omega, by simp [Running.qps, hget]⟩
  · rintro ⟨j, hj, rfl⟩
    rw [Running.qps, List.length_map] at hj
    obtain ⟨st, hst⟩ := (stage_spinning hat).2 (show j < r.i by omega)
    have hlen : j < r.entries.length := by omega
    exact ⟨r, j, r.entries[j].2, st, ht, by simp [Running.qps, hlen], hst⟩

/-- Spinning threads hold no lock twice. -/
theorem spinning_unique (h : Reachable Init (Step tma qpnDs) s) {q : Q} {t u : T}
    {r r' : Running Q} {j k : ℕ} (ht : s.thread t = some r) (hu : s.thread u = some r')
    (hat : r.at? = none) (hat' : r'.at? = none) (hj : (r.qps.take r.i)[j]? = some q)
    (hk : (r'.qps.take r'.i)[k]? = some q) : t = u ∧ j = k := by
  simp only [List.getElem?_take, Option.ite_none_right_eq_some, Running.qps, List.getElem?_map,
    Option.map_eq_some_iff] at hj hk
  obtain ⟨hji, ⟨_, c⟩, hje, rfl⟩ := hj
  obtain ⟨hki, ⟨_, c'⟩, hke, rfl⟩ := hk
  obtain ⟨st, hst⟩ := (stage_spinning hat).2 hji
  obtain ⟨st', hst'⟩ := (stage_spinning hat').2 hki
  exact stage_unique h ht hu hje hke hst hst'

/-- The array of a thread under way. -/
def array (s : MultiSys Q T) (t : T) : List Q := ((s.thread t).map Running.qps).getD []

/-- Where a thread is in its array. -/
def place (s : MultiSys Q T) (t : T) : ℕ := ((s.thread t).map Running.i).getD 0

/-- **A deadlock stops its threads in a lock cycle.** -/
theorem Deadlock.lockCycle {D : Set T} (h : Reachable Init (StepIn may tma qpnDs) s)
    (hd : s.Deadlock D) : ∃ D' : Finset T, LockCycle may D' s.array s.place := by
  obtain ⟨hr, hcalled⟩ := reachable_called h
  have hspin : ∀ t ∈ D, ∃ r, s.thread t = some r ∧ r.at? = none ∧ s.array t = r.qps ∧
      s.place t = r.i := fun t ht => by
    obtain ⟨-, q, ⟨r, c, hthread, hat, -⟩, -⟩ := hd.2 t ht
    exact ⟨r, hthread, hat, by simp [array, hthread], by simp [place, hthread]⟩
  have hholds : ∀ t ∈ D, ∀ q, s.Holds t q ↔ q ∈ (s.array t).take (s.place t) := fun t ht q => by
    obtain ⟨r, hthread, hat, harr, hpl⟩ := hspin t ht
    rw [harr, hpl, holds_iff hthread hat]
  have hfin : D.Finite := hcalled.finite.subset fun t ht => by
    obtain ⟨r, hthread, -⟩ := hspin t ht
    simp [hthread]
  have hmem : ∀ {t}, t ∈ hfin.toFinset → t ∈ D := fun ht => hfin.mem_toFinset.1 ht
  refine ⟨hfin.toFinset, (hfin.toFinset_nonempty).2 hd.1, fun t ht => ?_, fun t ht => ?_,
    fun t ht => ?_, fun t ht u hu q hq hq' => ?_, fun t ht => ?_⟩
  · obtain ⟨r, hthread, -, harr, -⟩ := hspin t (hmem ht)
    exact harr ▸ hcalled.may t r hthread
  · obtain ⟨⟨q, hq⟩, -⟩ := hd.2 t (hmem ht)
    rw [hholds t (hmem ht)] at hq
    by_contra hzero
    rw [Nat.eq_zero_of_not_pos hzero] at hq
    simp at hq
  · obtain ⟨r, hthread, hat, harr, hpl⟩ := hspin t (hmem ht)
    rw [harr, hpl, List.nodup_iff_getElem?_ne_getElem?]
    intro j k hjk hk heq
    obtain ⟨q, hq⟩ : ∃ q, (r.qps.take r.i)[k]? = some q := ⟨_, List.getElem?_eq_getElem hk⟩
    exact hjk.ne (spinning_unique hr hthread hthread hat hat (heq.trans hq) hq).2
  · obtain ⟨r, hthread, hat, harr, hpl⟩ := hspin t (hmem ht)
    obtain ⟨r', hthread', hat', harr', hpl'⟩ := hspin u (hmem hu)
    rw [harr, hpl] at hq
    rw [harr', hpl'] at hq'
    obtain ⟨j, hj⟩ := List.mem_iff_getElem?.1 hq
    obtain ⟨k, hk⟩ := List.mem_iff_getElem?.1 hq'
    exact (spinning_unique hr hthread hthread' hat hat' hj hk).1
  · obtain ⟨-, q, ⟨r, c, hthread, hat, he⟩, u, hu, hq⟩ := hd.2 t (hmem ht)
    refine ⟨q, ?_, u, hfin.mem_toFinset.2 hu, (hholds u hu q).1 hq⟩
    simp [array, place, hthread, Running.qps, he]

/-- A call with the array `l`, of index `0` on each QP. -/
def zeros (l : List Q) : List (Q × SubmitCall) := l.map fun q => (q, .db 0)

/-- Thread `t` is about to take the lock at place `i` of the array `l`. -/
def StopsAt (s : MultiSys Q T) (t : T) (l : List Q) (i : ℕ) : Prop :=
  s.thread t = some ⟨zeros l, fun _ => false, i, none⟩

omit [DecidableEq Q] [DecidableEq T] in
theorem zeros_qps {l : List Q} {w : ℕ → Bool} {i : ℕ} {o : Option Stage} :
    (⟨zeros l, w, i, o⟩ : Running Q).qps = l := by
  simp [Running.qps, zeros, Function.comp_def]

/-- What other threads and the locks of other QPs see of a run of thread `t` that takes the locks
`taken`. -/
structure Takes (s s' : MultiSys Q T) (t : T) (taken : List Q) : Prop where
  thread : ∀ u, u ≠ t → s'.thread u = s.thread u
  sqLock : ∀ q, q ∉ taken → (s'.door q).sqLock = (s.door q).sqLock

omit [DecidableEq Q] [DecidableEq T] in
theorem Takes.trans {s₁ s₂ s₃ : MultiSys Q T} {t : T} {l l' : List Q} (h : s₁.Takes s₂ t l)
    (h' : s₂.Takes s₃ t l') : s₁.Takes s₃ t (l ++ l') where
  thread := fun u hu => (h'.thread u hu).trans (h.thread u hu)
  sqLock := fun q hq => by
    rw [List.mem_append, not_or] at hq
    exact (h'.sqLock q hq.2).trans (h.sqLock q hq.1)

/-- A thread calls. -/
theorem exists_call {t : T} {l : List Q} (ht : s.thread t = none) (hmay : may t l)
    (hl : l ≠ []) : ∃ s', StepIn may tma qpnDs s s' ∧ s'.StopsAt t l 0 ∧ s.Takes s' t [] := by
  have hent : (SubmitOp.multi (l.map fun q => (q, 0))).entries tma = zeros l := by
    simp [SubmitOp.entries, zeros]
  have hcall := @Step.call Q T _ _ tma qpnDs s t (.multi (l.map fun q => (q, 0))) ht
    (by rw [hent, zeros]; simpa using hl)
  rw [hent] at hcall
  refine ⟨_, ⟨hcall, fun u r hu hr => ?_⟩, Function.update_self .., ?_⟩
  · obtain ⟨rfl, hr'⟩ | ⟨-, hr⟩ := update_eq_some.1 hr
    · cases hr'
      rwa [Running.start, zeros_qps]
    · rw [hu] at hr; cases hr
  · exact ⟨fun u hu => Function.update_of_ne hu .., fun q _ => rfl⟩

/-- A step of a thread that has called is a step with the same arrays. -/
theorem StepIn.of_called {t : T} {r : Running Q} {o : Option (Running Q)}
    (hs : Step tma qpnDs s s') (ht : s.thread t = some r)
    (hthread : s'.thread = Function.update s.thread t o) : StepIn may tma qpnDs s s' := by
  refine ⟨hs, fun u r' hu hr => ?_⟩
  rw [hthread] at hr
  obtain ⟨rfl, -⟩ | ⟨-, hr⟩ := update_eq_some.1 hr
  · rw [hu] at ht; cases ht
  · rw [hu] at hr; cases hr

/-- A thread takes a free lock, does not raise `sq_wqe_pi`, and goes to the next place. -/
theorem exists_take {t : T} {l : List Q} {i : ℕ} (ht : s.StopsAt t l i) (hi : i + 1 < l.length)
    (hl : (s.door l[i]).sqLock = false) :
    ∃ s', ReflTransGen (StepIn may tma qpnDs) s s' ∧ s'.StopsAt t l (i + 1) ∧
      s.Takes s' t [l[i]] := by
  have hent : (zeros l)[i]? = some (l[i], .db 0) := by
    rw [zeros, List.getElem?_map, List.getElem?_eq_getElem (by omega)]; rfl
  have hlen : (zeros l).length = l.length := List.length_map ..
  have hacq := @Step.acquire Q T _ _ tma qpnDs s t ⟨zeros l, fun _ => false, i, none⟩ l[i] (.db 0)
    ht rfl hent hl
  set s₁ : MultiSys Q T :=
    { door := Function.update s.door l[i] { s.door l[i] with sqLock := true }
      thread := Function.update s.thread t (some ⟨zeros l, fun _ => false, i, some .atomicMax⟩)
      calls := s.calls } with hs₁
  have ht₁ : s₁.thread t = some ⟨zeros l, fun _ => false, i, some .atomicMax⟩ :=
    Function.update_self ..
  have hexec := @Step.exec Q T _ _ tma qpnDs s₁ t _ l[i] (.db 0) .atomicMax ht₁ rfl hent
  have hnext : Running.advance (Door.won (.db 0) (s₁.door l[i]))
      ⟨zeros l, fun _ => false, i, some .atomicMax⟩ .atomicMax =
        some ⟨zeros l, fun _ => false, i + 1, none⟩ := by
    simp [Running.advance, Door.won, SubmitCall.prodIndex, Running.nextFirst, hlen, hi]
  rw [hnext] at hexec
  refine ⟨_, .tail (.single (StepIn.of_called hacq ht rfl)) (StepIn.of_called hexec ht₁ rfl),
    Function.update_self .., fun u hu => ?_, fun q hq => ?_⟩
  · simp [hs₁, hu]
  · have hne : q ≠ l[i] := by simpa using hq
    simp [hs₁, hne]

/-- **A thread reaches any place of its array** whose QPs before are different and not locked. -/
theorem exists_run {t : T} {l : List Q} (ht : s.thread t = none) (hmay : may t l) {i : ℕ}
    (hi : i < l.length) (hnd : (l.take i).Nodup)
    (hfree : ∀ q ∈ l.take i, (s.door q).sqLock = false) :
    ∃ s', ReflTransGen (StepIn may tma qpnDs) s s' ∧ s'.StopsAt t l i ∧
      s.Takes s' t (l.take i) := by
  induction i with
  | zero =>
    obtain ⟨s', hs, hstop, htakes⟩ := exists_call ht hmay (List.ne_nil_of_length_pos hi)
    exact ⟨s', .single hs, hstop, htakes⟩
  | succ i ih =>
    rw [List.take_succ_eq_append_getElem (by omega)] at hnd hfree ⊢
    obtain ⟨hnd', -, hnew⟩ := List.nodup_append.1 hnd
    obtain ⟨s₁, hrun, hstop, htakes⟩ :=
      ih (by omega) hnd' fun q hq => hfree q (List.mem_append_left _ hq)
    have hni : l[i] ∉ l.take i := fun hmem => hnew _ hmem _ (List.mem_singleton_self _) rfl
    have hl : (s₁.door l[i]).sqLock = false := by
      rw [htakes.sqLock _ hni]
      exact hfree _ (List.mem_append_right _ (List.mem_singleton_self _))
    obtain ⟨s₂, hrun', hstop', htakes'⟩ := exists_take hstop hi hl
    exact ⟨s₂, hrun.trans hrun', hstop', htakes.trans htakes'⟩

/-- **A run stops the threads at any places** whose QPs before are all different: one thread after
the other. -/
theorem reachable_at (tma : Bool) (qpnDs : Q → BitVec 32) {D : Finset T} {qps : T → List Q}
    {i : T → ℕ} (h : Init s)
    (hmay : ∀ t ∈ D, may t (qps t)) (hlt : ∀ t ∈ D, i t < (qps t).length)
    (hnd : ∀ t ∈ D, ((qps t).take (i t)).Nodup)
    (hdisj : ∀ t ∈ D, ∀ u ∈ D, ∀ q ∈ (qps t).take (i t), q ∈ (qps u).take (i u) → t = u) :
    ∃ s', Reachable Init (StepIn may tma qpnDs) s' ∧ (∀ t ∈ D, s'.StopsAt t (qps t) (i t)) ∧
      (∀ t, t ∉ D → s'.thread t = none) ∧
      ∀ q, (∀ t ∈ D, q ∉ (qps t).take (i t)) → (s'.door q).sqLock = false := by
  induction D using Finset.induction_on with
  | empty =>
    exact ⟨s, .start h, fun _ ht => (Finset.notMem_empty _ ht).elim, fun t _ => h.thread t,
      fun q _ => (h.door q).sqLock⟩
  | insert t D ht ih =>
    have hsub : ∀ {u}, u ∈ D → u ∈ insert t D := Finset.mem_insert_of_mem
    have hself : t ∈ insert t D := Finset.mem_insert_self ..
    have hne : ∀ {u}, u ∈ D → u ≠ t := fun hu hut => ht (hut ▸ hu)
    obtain ⟨s₁, hreach, hstop, hidle, hfree⟩ := ih (fun u hu => hmay u (hsub hu))
      (fun u hu => hlt u (hsub hu)) (fun u hu => hnd u (hsub hu))
      fun u hu v hv => hdisj u (hsub hu) v (hsub hv)
    obtain ⟨s₂, hrun, hstop', htakes⟩ := exists_run (hidle t ht) (hmay t hself) (hlt t hself)
      (hnd t hself) fun q hq => hfree q fun u hu hqu =>
        hne hu (hdisj t hself u (hsub hu) q hq hqu).symm
    refine ⟨s₂, hreach.run hrun, fun u hu => ?_, fun u hu => ?_, fun q hq => ?_⟩
    · obtain rfl | hu := Finset.mem_insert.1 hu
      · exact hstop'
      · rw [StopsAt, htakes.thread u (hne hu)]
        exact hstop u hu
    · rw [Finset.mem_insert, not_or] at hu
      rw [htakes.thread u hu.1]
      exact hidle u hu.2
    · rw [htakes.sqLock q (hq t hself)]
      exact hfree q fun u hu => hq u (hsub hu)

/-- No thread has called on any QP. -/
def fresh : MultiSys Q T := ⟨fun _ => ⟨false, 0, 0, 0, []⟩, fun _ => none, fun _ => ∅⟩

omit [DecidableEq Q] [DecidableEq T] in
theorem init_fresh : Init (fresh : MultiSys Q T) :=
  ⟨fun _ => ⟨rfl, rfl, rfl, rfl⟩, fun _ => rfl, fun _ => rfl⟩

omit [DecidableEq Q] [DecidableEq T] in
/-- Threads at the places of a lock cycle are deadlocked. -/
theorem deadlock_of_stopsAt {D : Finset T} {qps : T → List Q} {i : T → ℕ}
    (h : LockCycle may D qps i) (hstop : ∀ t ∈ D, s.StopsAt t (qps t) (i t)) :
    s.Deadlock (D : Set T) := by
  have hholds : ∀ t ∈ D, ∀ q, s.Holds t q ↔ q ∈ (qps t).take (i t) := fun t ht q => by
    rw [holds_iff (hstop t ht) rfl, zeros_qps]
  refine ⟨h.nonempty, fun t ht => ?_⟩
  obtain ⟨q, hq, u, hu, hmem⟩ := h.next t ht
  have hlt := (List.getElem?_eq_some_iff.1 hq).1
  have hpos := h.pos t ht
  have hlen : 0 < (qps t).length := by omega
  refine ⟨⟨(qps t)[0], (hholds t ht _).2 ?_⟩, q, ?_, u, hu, (hholds u hu q).2 hmem⟩
  · exact List.mem_take_iff_getElem.2 ⟨0, by omega, rfl⟩
  · exact ⟨_, .db 0, hstop t ht, rfl, by simp [zeros, hq]⟩

/-- **Deadlock freedom.** No run of threads that call with given arrays of QPs leads to a lock
deadlock if and only if the arrays have no lock cycle. -/
theorem deadlock_free_iff :
    (∀ s : MultiSys Q T, Reachable Init (StepIn may tma qpnDs) s → ∀ D, ¬ s.Deadlock D) ↔
      ∀ D qps i, ¬ LockCycle may D qps i := by
  constructor
  · intro h D qps i hc
    have hlt : ∀ t ∈ D, i t < (qps t).length := fun t ht => by
      obtain ⟨q, hq, -⟩ := hc.next t ht
      exact (List.getElem?_eq_some_iff.1 hq).1
    obtain ⟨s, hs, hstop, -⟩ := reachable_at _ _ init_fresh hc.may hlt hc.nodup hc.disjoint
    exact h s hs D (deadlock_of_stopsAt hc hstop)
  · intro h s hs D hd
    obtain ⟨D', hc⟩ := hd.lockCycle hs
    exact h D' _ _ hc

/-- Two threads, each with the two QPs in its own order, block each other. -/
theorem opposite_orders_deadlock :
    ∃ s : MultiSys Bool Bool, Reachable Init (Step true fun _ => 0) s ∧ s.Deadlock Set.univ := by
  let qps : Bool → List Bool := fun t => [t, !t]
  have hc : LockCycle (fun t l => l = qps t) Finset.univ qps fun _ => 1 :=
    { nonempty := Finset.univ_nonempty
      may := fun _ _ => rfl
      pos := fun _ _ => Nat.one_pos
      nodup := by decide
      disjoint := by decide
      next := by decide }
  obtain ⟨s, hs, hstop, -⟩ := reachable_at true (fun _ => 0)
    init_fresh hc.may (by decide) hc.nodup hc.disjoint
  exact ⟨s, (reachable_called hs).1, @Finset.coe_univ Bool _ ▸ deadlock_of_stopsAt hc hstop⟩

end MultiSys

end Gpunetio
