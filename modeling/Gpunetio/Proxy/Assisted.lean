import Gpunetio.Proxy.Model
import Gpunetio.Lib.Transition

/-!
# The doorbell record written by the host

In the software-emulated mode without doorbell records the threads of the device ring the doorbell
themselves, as in `submit_db_no_dbr`, and the host reads `sq_wqe_pi` from the device QP, writes the
record and rings too. Threads and host store to one doorbell register without a lock.

* `gverbsQpnDs`: the QP number the host puts into its doorbells;
* `AssistSys.Step`: any number of threads, and the progress calls of the host;
* `AssistSys.Inv`: published indices, the order of the records, and which doorbell was the last;
* **`AssistSys.current_iff`**: when a progress call alone leaves the doorbell at `sq_wqe_pi`;
* `AssistSys.doorbell_left_behind`.
-/

namespace Gpunetio

open Transition

/-- `sq_num_shift8_be` of `doca_gpu_verbs_qp`: `doca_gpu_verbs_export_qp` sets it for the CPU proxy
and leaves it zero otherwise. -/
def gverbsQpnDs (nicHandler : NicHandler) (qp : QpConst) : BitVec 32 :=
  if nicHandler = .cpuProxy then qp.sqNumShift8Be else 0#32

/-- The word encodes its index, in a doorbell with the QP number of the device or of the host. -/
def ProxyWrite.Encodes (device host : BitVec 32) : ProxyWrite → Prop
  | db p value => value = prepareDb device p ∨ value = prepareDb host p
  | dbr p value => value = prepareDbr p

/-- `submit_db_no_dbr`: it is about to raise `sq_wqe_pi`, or has raised it and is about to ring. -/
structure NoDbrCall where
  prodIndex : ℕ
  won : Bool
deriving DecidableEq, Repr

/-- One QP, whose `cpu_db` is the `sq_wqe_pi` of the device QP. The last four fields record the run:
the values `sq_wqe_pi` has had, the one the last progress call loaded, the last one the host rang,
and whether the last doorbell is older than that. -/
structure AssistSys (T : Type*) where
  mem : ProxyMem
  call : Option ProxyCall
  thread : T → Option NoDbrCall
  published : Set ℕ
  seen : ℕ
  hostRung : ℕ
  overtaken : Prop

namespace AssistSys

variable {T : Type*}

/-- The QP as `doca_gpu_verbs_get_qp_dev` leaves it. -/
structure Init (s : AssistSys T) : Prop where
  cpuDb : s.mem.cpuDb = 0
  last : s.mem.sqWqePiLast = 0
  sqDbrec : s.mem.sqDbrec = 0
  trace : s.mem.trace = []
  call : s.call = none
  thread : ∀ t, s.thread t = none
  published : s.published = ∅
  seen : s.seen = 0
  hostRung : s.hostRung = 0
  overtaken : ¬ s.overtaken

/-- The next step of the host. -/
def proxy (host : BitVec 32) (ops : List ProxyOp) (s : AssistSys T) : AssistSys T where
  mem := (s.mem.proxyStep host ops s.call).1
  call := (s.mem.proxyStep host ops s.call).2
  thread := s.thread
  published := s.published
  seen := if s.call = none then s.mem.cpuDb else s.seen
  hostRung := match s.call with
    | some (.storing v (.ringDb :: _)) => v
    | _ => s.hostRung
  overtaken := match s.call with
    | some (.storing _ (.ringDb :: _)) => False
    | _ => s.overtaken

/-- A thread stores to the doorbell. -/
def ring (device : BitVec 32) (p : ℕ) (m : ProxyMem) : ProxyMem :=
  { m with sqDb := prepareDb device p, trace := .db p (prepareDb device p) :: m.trace }

/-- **One step**: a thread calls `submit_db_no_dbr`, raises `sq_wqe_pi`, fewer than `2 ^ 32` WQEs
ahead of the last progress call, or rings; or the host moves. -/
inductive Step [DecidableEq T] (qp : QpConst) (nicHandler : NicHandler) :
    AssistSys T → AssistSys T → Prop
  | call {s} (t : T) (p : ℕ) (h : s.thread t = none) :
      Step qp nicHandler s { s with thread := Function.update s.thread t (some ⟨p, false⟩) }
  | atomicMax {s} (t : T) {p} (h : s.thread t = some ⟨p, false⟩) (hp : p < s.seen + 2 ^ 32) :
      Step qp nicHandler s { s with
        mem := { s.mem with cpuDb := max s.mem.cpuDb p }
        thread := Function.update s.thread t (if s.mem.cpuDb < p then some ⟨p, true⟩ else none)
        published := if s.mem.cpuDb < p then insert p s.published else s.published }
  | ring {s} (t : T) {p} (h : s.thread t = some ⟨p, true⟩) :
      Step qp nicHandler s { s with
        mem := ring (qp.qpnDs 0#32) p s.mem
        thread := Function.update s.thread t none
        overtaken := p < s.hostRung }
  | proxy {s} :
      Step qp nicHandler s
        (s.proxy (gverbsQpnDs nicHandler qp) (progressOps .noDbrSwEmulated nicHandler))

/-- Between two progress calls: the memory names `r`, the last index the host rang. -/
structure Between (r : ℕ) (m : ProxyMem) : Prop where
  last : m.sqWqePiLast = r % 2 ^ 32
  sqDbrec : m.sqDbrec = prepareDbr r
  records : ∀ p ∈ m.records, p ≤ r

/-- What holds during a progress call: `r` is the last index the host rang. -/
def During (r : ℕ) (m : ProxyMem) (published : Set ℕ) (seen : ℕ) : Option ProxyCall → Prop
  | none => Between r m ∧ seen = r
  | some (.loaded v) => Between r m ∧ seen = v ∧ r ≤ v ∧ v < r + 2 ^ 32 ∧ (v = 0 ∨ v ∈ published)
  | some (.storing v todo) => seen = v ∧ r ≤ v ∧ v ∈ published ∧ (∀ p ∈ m.records, p ≤ v) ∧
      (todo = [.storeDbrec, .ringDb, .setLast] ∨
        (todo = [.ringDb, .setLast] ∧ m.sqDbrec = prepareDbr v) ∨
        (todo = [.setLast] ∧ m.sqDbrec = prepareDbr v ∧ r = v) ∨
        (todo = [] ∧ Between r m ∧ r = v))

/-- **The invariant.** -/
structure Inv (qp : QpConst) (nicHandler : NicHandler) (s : AssistSys T) : Prop where
  won : ∀ t p, s.thread t = some ⟨p, true⟩ → p ∈ s.published
  published : ∀ p ∈ s.published, 0 < p ∧ p ≤ s.mem.cpuDb
  top : s.mem.cpuDb = 0 ∨ s.mem.cpuDb ∈ s.published
  writes : ∀ w ∈ s.mem.trace, w.index ∈ s.published ∧
    w.Encodes (qp.qpnDs 0#32) (gverbsQpnDs nicHandler qp)
  records : s.mem.records.Pairwise (· ≥ ·)
  lt : s.mem.cpuDb < s.seen + 2 ^ 32
  hostRung : s.hostRung = 0 ∨ s.hostRung ∈ s.published
  overtaken : s.overtaken ↔ s.mem.rung < s.hostRung
  during : During s.hostRung s.mem s.published s.seen s.call

variable {qp : QpConst} {nicHandler : NicHandler} {s s' : AssistSys T}

theorem Inv.init (h : Init s) : s.Inv qp nicHandler where
  won := fun t p ht => by rw [h.thread t] at ht; cases ht
  published := by simp [h.published]
  top := .inl h.cpuDb
  writes := by simp [h.trace]
  records := by simp [ProxyMem.records, h.trace]
  lt := by rw [h.cpuDb]; omega
  hostRung := .inl h.hostRung
  overtaken := by simp [h.overtaken, h.hostRung]
  during := by
    rw [h.call, h.hostRung]
    refine ⟨⟨h.last, ?_, ?_⟩, h.seen⟩
    · rw [h.sqDbrec]; decide
    · simp [ProxyMem.records, h.trace]

/-- A thread's step keeps what holds during a call. -/
theorem During.mono {r seen : ℕ} {m m' : ProxyMem} {pub pub' : Set ℕ} {c : Option ProxyCall}
    (h : During r m pub seen c) (hl : m'.sqWqePiLast = m.sqWqePiLast)
    (hd : m'.sqDbrec = m.sqDbrec) (hr : m'.records = m.records) (hpub : pub ⊆ pub') :
    During r m' pub' seen c := by
  have hb : Between r m → Between r m' := fun hb =>
    ⟨hl.trans hb.last, hd.trans hb.sqDbrec, by rw [hr]; exact hb.records⟩
  rcases c with _ | (v | ⟨v, todo⟩)
  · exact ⟨hb h.1, h.2⟩
  · obtain ⟨h₁, h₂, h₃, h₄, h₅⟩ := h
    exact ⟨hb h₁, h₂, h₃, h₄, h₅.imp_right fun hv => hpub hv⟩
  · obtain ⟨h₁, h₂, h₃, h₄, h₅⟩ := h
    refine ⟨h₁, h₂, hpub h₃, by rw [hr]; exact h₄, ?_⟩
    rw [hd]
    refine h₅.imp_right fun h₅ => h₅.imp_right fun h₅ => h₅.imp_right fun h₅ => ?_
    exact ⟨h₅.1, hb h₅.2.1, h₅.2.2⟩

theorem Inv.atomicMax [DecidableEq T] (h : s.Inv qp nicHandler) {t : T} {p : ℕ}
    (ht : s.thread t = some ⟨p, false⟩) (hp : p < s.seen + 2 ^ 32) :
    Inv qp nicHandler { s with
      mem := { s.mem with cpuDb := max s.mem.cpuDb p }
      thread := Function.update s.thread t (if s.mem.cpuDb < p then some ⟨p, true⟩ else none)
      published := if s.mem.cpuDb < p then insert p s.published else s.published } := by
  by_cases hlt : s.mem.cpuDb < p
  · have hsub : s.published ⊆ insert p s.published := Set.subset_insert p s.published
    simp only [hlt, if_true, max_eq_right hlt.le]
    exact
      { won := by
          intro u k hu
          obtain ⟨rfl, hk⟩ | ⟨-, hu⟩ := update_eq_some.1 hu
          · cases hk
            exact Set.mem_insert ..
          · exact hsub (h.won u k hu)
        published := by
          rintro k (rfl | hk)
          · exact ⟨(Nat.zero_le _).trans_lt hlt, le_rfl⟩
          · exact ⟨(h.published k hk).1, (h.published k hk).2.trans hlt.le⟩
        top := .inr (Set.mem_insert ..)
        writes := fun w hw => ⟨hsub (h.writes w hw).1, (h.writes w hw).2⟩
        records := h.records
        lt := hp
        hostRung := h.hostRung.imp_right fun hr => hsub hr
        overtaken := h.overtaken
        during := h.during.mono rfl rfl rfl hsub }
  · have hmax : max s.mem.cpuDb p = s.mem.cpuDb := max_eq_left (not_lt.1 hlt)
    simp only [hlt, if_false, hmax]
    refine ⟨fun u k hu => ?_, h.published, h.top, h.writes, h.records, h.lt, h.hostRung,
      h.overtaken, h.during⟩
    obtain ⟨-, hk⟩ | ⟨-, hu⟩ := update_eq_some.1 hu
    · cases hk
    · exact h.won u k hu

theorem Inv.ring [DecidableEq T] (h : s.Inv qp nicHandler) {t : T} {p : ℕ}
    (ht : s.thread t = some ⟨p, true⟩) :
    Inv qp nicHandler { s with
      mem := ring (qp.qpnDs 0#32) p s.mem
      thread := Function.update s.thread t none
      overtaken := p < s.hostRung } where
  won := by
    intro u k hu
    obtain ⟨-, hk⟩ | ⟨-, hu⟩ := update_eq_some.1 hu
    · cases hk
    · exact h.won u k hu
  published := h.published
  top := h.top
  writes := List.forall_mem_cons.2 ⟨⟨h.won t p ht, .inl rfl⟩, h.writes⟩
  records := h.records
  lt := h.lt
  hostRung := h.hostRung
  overtaken := Iff.rfl
  during := h.during.mono rfl rfl rfl subset_rfl

/-- A published index that differs by less than `2 ^ 32` is told apart. -/
theorem eq_of_not_behind {r v : ℕ} {m : ProxyMem} (hb : Between r m) (hle : r ≤ v)
    (hlt : v < r + 2 ^ 32) (hn : ¬ m.behind v) : v = r := by
  simp only [ProxyMem.behind, tmpDb, BitVec.toNat_ofNat, hb.last, decide_eq_true_eq, not_not] at hn
  omega

theorem Inv.hostRung_le (h : s.Inv qp nicHandler) : s.hostRung ≤ s.mem.cpuDb :=
  h.hostRung.elim (fun h0 => h0 ▸ Nat.zero_le _) fun hr => (h.published _ hr).2

section Proxy

variable {host : BitVec 32} {ops todo : List ProxyOp} {v : ℕ}

theorem proxy_load (hc : s.call = none) :
    s.proxy host ops = { s with call := some (.loaded s.mem.cpuDb), seen := s.mem.cpuDb } := by
  cases s
  cases hc
  rfl

theorem proxy_compare (hc : s.call = some (.loaded v)) :
    s.proxy host ops = { s with
      call := if s.mem.behind v then some (.storing v ops) else none } := by
  cases s
  cases hc
  rfl

theorem proxy_ring (hc : s.call = some (.storing v (.ringDb :: todo))) :
    s.proxy host ops = { s with
      mem := s.mem.exec host v .ringDb
      call := some (.storing v todo)
      hostRung := v
      overtaken := False } := by
  cases s
  cases hc
  rfl

theorem proxy_storeDbrec (hc : s.call = some (.storing v (.storeDbrec :: todo))) :
    s.proxy host ops = { s with
      mem := s.mem.exec host v .storeDbrec
      call := some (.storing v todo) } := by
  cases s
  cases hc
  rfl

theorem proxy_setLast (hc : s.call = some (.storing v (.setLast :: todo))) :
    s.proxy host ops = { s with
      mem := s.mem.exec host v .setLast
      call := some (.storing v todo) } := by
  cases s
  cases hc
  rfl

theorem proxy_return (hc : s.call = some (.storing v [])) :
    s.proxy host ops = { s with call := none } := by
  cases s
  cases hc
  rfl

end Proxy

/-- A move of the host that stores nothing. -/
theorem Inv.move (h : s.Inv qp nicHandler) {c : Option ProxyCall} {seen : ℕ}
    (hlt : s.mem.cpuDb < seen + 2 ^ 32) (hd : During s.hostRung s.mem s.published seen c) :
    Inv qp nicHandler { s with call := c, seen := seen } :=
  ⟨h.won, h.published, h.top, h.writes, h.records, hlt, h.hostRung, h.overtaken, hd⟩

/-- The host's call stores: the record, the doorbell, or `sq_wqe_pi_last`. -/
theorem Inv.store (h : s.Inv qp nicHandler) {v : ℕ} {op : ProxyOp} {todo : List ProxyOp}
    (hc : s.call = some (.storing v (op :: todo))) :
    (s.proxy (gverbsQpnDs nicHandler qp) dbrAssisted).Inv qp nicHandler := by
  have hd := h.during
  rw [hc] at hd
  obtain ⟨hseen, hle, hv, hrec, htodo⟩ := hd
  obtain htodo | ⟨htodo, hdbr⟩ | ⟨htodo, hdbr, hr⟩ | ⟨htodo, -⟩ := htodo
  · cases htodo
    rw [proxy_storeDbrec hc]
    exact
      { won := h.won
        published := h.published
        top := h.top
        writes := List.forall_mem_cons.2 ⟨⟨hv, proxyDbr_eq v⟩, h.writes⟩
        records := List.pairwise_cons.2 ⟨hrec, h.records⟩
        lt := h.lt
        hostRung := h.hostRung
        overtaken := h.overtaken
        during := ⟨hseen, hle, hv, List.forall_mem_cons.2 ⟨le_rfl, hrec⟩,
          .inr (.inl ⟨rfl, proxyDbr_eq v⟩)⟩ }
  · cases htodo
    rw [proxy_ring hc]
    exact
      { won := h.won
        published := h.published
        top := h.top
        writes := List.forall_mem_cons.2 ⟨⟨hv, .inr (proxyDb_eq _ v)⟩, h.writes⟩
        records := h.records
        lt := h.lt
        hostRung := .inr hv
        overtaken := ⟨False.elim, fun hlt => lt_irrefl v hlt⟩
        during := ⟨hseen, le_rfl, hv, hrec, .inr (.inr (.inl ⟨rfl, hdbr, rfl⟩))⟩ }
  · cases htodo
    rw [proxy_setLast hc]
    have hlast : (tmpDb v).toNat = s.hostRung % 2 ^ 32 := by
      rw [tmpDb, BitVec.toNat_ofNat, hr]
    exact
      { won := h.won
        published := h.published
        top := h.top
        writes := h.writes
        records := h.records
        lt := h.lt
        hostRung := h.hostRung
        overtaken := h.overtaken
        during := ⟨hseen, hle, hv, hrec,
          .inr (.inr (.inr ⟨rfl, ⟨hlast, hr ▸ hdbr, hr ▸ hrec⟩, hr⟩))⟩ }
  · cases htodo

theorem Inv.proxy (h : s.Inv qp nicHandler) :
    (s.proxy (gverbsQpnDs nicHandler qp) dbrAssisted).Inv qp nicHandler := by
  have hd := h.during
  rcases hc : s.call with _ | (v | ⟨v, _ | ⟨op, todo⟩⟩)
  · rw [hc] at hd
    rw [proxy_load hc]
    have hlt := h.lt
    rw [hd.2] at hlt
    exact h.move (by omega) ⟨hd.1, rfl, h.hostRung_le, hlt, h.top⟩
  · rw [hc] at hd
    obtain ⟨hb, hseen, hle, hlt, hv⟩ := hd
    rw [proxy_compare hc]
    by_cases hn : s.mem.behind v
    · rw [if_pos hn]
      have hpos : v ≠ 0 := by
        rintro rfl
        have hr : s.hostRung = 0 := Nat.le_zero.1 hle
        simp [ProxyMem.behind, tmpDb, hb.last, hr] at hn
      refine h.move h.lt ⟨hseen, hle, hv.resolve_left hpos, ?_, .inl rfl⟩
      exact fun p hp => (hb.records p hp).trans hle
    · rw [if_neg hn]
      exact h.move h.lt ⟨hb, hseen.trans (eq_of_not_behind hb hle hlt hn)⟩
  · rw [hc] at hd
    obtain ⟨hseen, -, -, -, htodo⟩ := hd
    rw [proxy_return hc]
    obtain htodo | ⟨htodo, -⟩ | ⟨htodo, -⟩ | ⟨-, hb, hr⟩ := htodo
    · cases htodo
    · cases htodo
    · cases htodo
    · exact h.move h.lt ⟨hb, hseen.trans hr.symm⟩
  · exact h.store hc

/-- **Every step keeps the invariant.** -/
theorem Inv.step [DecidableEq T] (hh : nicHandler ≠ .cpuProxy) (h : s.Inv qp nicHandler)
    (hs : Step qp nicHandler s s') : s'.Inv qp nicHandler := by
  cases hs with
  | call t p ht =>
    refine ⟨fun u k hu => ?_, h.published, h.top, h.writes, h.records, h.lt, h.hostRung,
      h.overtaken, h.during⟩
    obtain ⟨-, hk⟩ | ⟨-, hu⟩ := update_eq_some.1 hu
    · cases hk
    · exact h.won u k hu
  | atomicMax t ht hp => exact h.atomicMax ht hp
  | ring t ht => exact h.ring ht
  | proxy =>
    rw [progressOps, if_pos ⟨rfl, hh⟩]
    exact h.proxy

theorem reachable_inv [DecidableEq T] (hh : nicHandler ≠ .cpuProxy)
    (h : Reachable Init (Step qp nicHandler) s) : s.Inv qp nicHandler :=
  h.invariant (fun _ => Inv.init) fun _ _ => Inv.step hh

/-- What a progress call alone leaves: the record at `sq_wqe_pi`; the doorbell too, if the call
rings or the last doorbell was no older than the host's. -/
theorem Inv.progress (h : s.Inv qp nicHandler) (hc : s.call = none) {host : BitVec 32}
    (hh : nicHandler ≠ .cpuProxy) {m' : ProxyMem}
    (hm' : (s.mem.progress host .noDbrSwEmulated nicHandler).1 = m') :
    m'.cpuDb = s.mem.cpuDb ∧ m'.sqDbrec = prepareDbr s.mem.cpuDb ∧
      (m'.rung = s.mem.cpuDb ↔ s.mem.behind s.mem.cpuDb ∨ ¬ s.overtaken) := by
  have hd := h.during
  rw [hc] at hd
  obtain ⟨hb, hseen⟩ := hd
  rw [ProxyMem.progress_fst, progressOps, if_pos ⟨rfl, hh⟩, ProxyMem.progressWith] at hm'
  by_cases hn : s.mem.behind s.mem.cpuDb
  · rw [if_pos hn] at hm'
    subst hm'
    exact ⟨rfl, proxyDbr_eq _, fun _ => .inl hn, fun _ => rfl⟩
  · rw [if_neg hn] at hm'
    subst hm'
    have hlt := h.lt
    rw [hseen] at hlt
    have hpi := eq_of_not_behind hb h.hostRung_le hlt hn
    have hle : s.mem.rung ≤ s.mem.cpuDb := by
      rw [ProxyMem.rung]
      cases hdb : s.mem.doorbells with
      | nil => exact Nat.zero_le _
      | cons p l =>
        have hp : p ∈ s.mem.doorbells := by rw [hdb]; exact List.mem_cons_self
        obtain ⟨w, hw, hwp⟩ := List.mem_filterMap.1 hp
        have hidx : w.index = p := by
          cases w with
          | db q x => exact Option.some.inj hwp
          | dbr q x => cases hwp
        exact hidx ▸ (h.published _ (h.writes w hw).1).2
    refine ⟨rfl, hpi ▸ hb.sqDbrec, ?_⟩
    rw [h.overtaken]
    have hn' : s.mem.behind s.mem.cpuDb = false := by simpa using hn
    simp only [hn', Bool.false_eq_true, false_or, not_lt]
    omega

/-- **When the doorbell ends at `sq_wqe_pi`.** In every run each word written encodes an index that
`sq_wqe_pi` has had, and the indices of the records never go back. When all submissions have
finished, one more progress call alone leaves the record at `sq_wqe_pi`; it leaves the doorbell
there if and only if it finds a new index, or the last doorbell was not of a submission that the
host had overtaken. -/
theorem current_iff [DecidableEq T] (hh : nicHandler ≠ .cpuProxy)
    (h : Reachable Init (Step qp nicHandler) s) :
    (∀ w ∈ s.mem.trace, w.index ∈ s.published ∧
      w.Encodes (qp.qpnDs 0#32) (gverbsQpnDs nicHandler qp)) ∧
    s.mem.records.Pairwise (· ≥ ·) ∧
    ((∀ t, s.thread t = none) → s.call = none → ∀ m',
      (s.mem.progress (gverbsQpnDs nicHandler qp) .noDbrSwEmulated nicHandler).1 = m' →
      m'.cpuDb = s.mem.cpuDb ∧ m'.sqDbrec = prepareDbr s.mem.cpuDb ∧
        (m'.rung = s.mem.cpuDb ↔ s.mem.behind s.mem.cpuDb ∨ ¬ s.overtaken)) := by
  have hinv := reachable_inv hh h
  exact ⟨hinv.writes, hinv.records, fun _ hc _ hm' => hinv.progress hc hh hm'⟩

/-- Two threads, which have not called yet. -/
def idle : AssistSys Bool := ⟨⟨0, 0, 0, 0, []⟩, none, fun _ => none, ∅, 0, 0, False⟩

theorem init_idle : Init idle := ⟨rfl, rfl, rfl, rfl, rfl, fun _ => rfl, rfl, rfl, rfl, id⟩

/-- Two submissions raise `sq_wqe_pi` to 1 and to 2; the host rings 2, and then the first submission
stores its 1. One more progress call finds nothing new. -/
theorem doorbell_left_behind :
    ∃ s : AssistSys Bool, Reachable Init (Step ⟨0x12, 0⟩ .gpuSmNoDbr) s ∧
      (∀ t, s.thread t = none) ∧ s.call = none ∧ s.mem.cpuDb = 2 ∧
      ∀ m', (s.mem.progress (gverbsQpnDs .gpuSmNoDbr ⟨0x12, 0⟩) .noDbrSwEmulated
        .gpuSmNoDbr).1 = m' → m'.rung = 1 ∧ dbIndex m'.sqDb = 1 := by
  have h₀ := (Reachable.start init_idle).next
    (@Step.call Bool _ ⟨0x12, 0⟩ .gpuSmNoDbr idle false 1 rfl)
  have h₁ := h₀.next (.call true 2 rfl)
  have h₂ := h₁.next (.atomicMax false rfl (by decide))
  have h₃ := h₂.next (.atomicMax true rfl (by decide))
  have h₄ := h₃.next (.ring true rfl)
  -- a progress call from begin to end
  have h₅ := ((((((h₄.next .proxy).next .proxy).next .proxy).next .proxy).next .proxy).next .proxy)
  have h₆ := h₅.next (.ring false rfl)
  refine ⟨_, h₆, fun t => by cases t <;> rfl, rfl, rfl, ?_⟩
  rintro m' rfl
  exact ⟨rfl, dbIndex_prepareDb _ 1⟩

/-- One submission, and the host does the rest. -/
theorem current_one :
    ∃ s : AssistSys Bool, Reachable Init (Step ⟨0x12, 0⟩ .gpuSmNoDbr) s ∧
      ∀ m', (s.mem.progress (gverbsQpnDs .gpuSmNoDbr ⟨0x12, 0⟩) .noDbrSwEmulated
        .gpuSmNoDbr).1 = m' → m'.rung = 1 := by
  have h₀ := (Reachable.start init_idle).next
    (@Step.call Bool _ ⟨0x12, 0⟩ .gpuSmNoDbr idle false 1 rfl)
  have h₁ := h₀.next (.atomicMax false rfl (by decide))
  have h₂ := h₁.next (.ring false rfl)
  refine ⟨_, h₂, fun m' hm' => ?_⟩
  have hiff := (current_iff (by decide) h₂).2.2 (fun t => by cases t <;> rfl) rfl m' hm'
  exact hiff.2.2.2 (.inl rfl)

end AssistSys

end Gpunetio
