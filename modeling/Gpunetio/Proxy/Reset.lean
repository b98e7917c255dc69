import Gpunetio.Proxy.Model
import Gpunetio.Reset

/-!
# A reset beside the proxy

The service thread calls `doca_gpu_verbs_cpu_proxy_progress` under its own lock, and
`doca_gpu_verbs_reset_tracking_and_memory` takes none, so the steps of a call and of a reset come in
any order. Nothing is posted during a reset: `cpu_db` changes only when the reset clears it.

* `ResetOp`, `resetOps`: the stores of a reset; **`foldl_resetOps`**: without a call beside it they
  are `resetTrackingAndMemory`;
* `ResetSys.Step`: the service thread and one reset;
* `Carries`: a call still has stores to do, of an index from before the reset;
* `ResetSys.Inv`; **`ResetSys.unraced_iff`**: when a finished reset has left everything at zero;
* `ResetSys.stored_after_reset`.
-/

namespace Gpunetio

open Transition Relation

/-- The stores of a reset of a QP with `cpu_proxy`, in order. The first uses the copy of the device
QP read just before. -/
inductive ResetOp
  | qpCpu
  | sqWqePiLast
  | sqDbrec
  | cpuDb
  | cqRing
  | sqRing
  | copyToDevice
deriving DecidableEq, Repr

/-- One store of a reset. The copy to the device overwrites `cpu_db` too where that is a field of
the device QP. -/
def GverbsQp.resetOp (inDevice : Bool) (q : GverbsQp) : ResetOp → GverbsQp
  | .qpCpu =>
    { q with qpCpu :=
      { sqWqePi := 0, sqRsvdIndex := 0, sqReadyIndex := 0, sqLock := 0, cqeCi := 0
        cqeRsvd := q.qpGpu.sqRsvdIndex } }
  | .sqWqePiLast => { q with sqWqePiLast := 0 }
  | .sqDbrec => { q with sqDbrec := 0 }
  | .cpuDb => { q with cpuDb := 0 }
  | .cqRing => q.resetCqRing
  | .sqRing => q.resetSqRing
  | .copyToDevice =>
    { q with qpGpu := q.qpCpu, cpuDb := if inDevice then q.qpCpu.sqWqePi else q.cpuDb }

/-- The stores up to the call `fail` that fails. -/
def resetOps : Option ResetCall → List ResetOp
  | some .copyToHost => []
  | some .setCqRing => [.qpCpu, .sqWqePiLast, .sqDbrec, .cpuDb]
  | some .setSqRing => [.qpCpu, .sqWqePiLast, .sqDbrec, .cpuDb, .cqRing]
  | some .copyToDevice => [.qpCpu, .sqWqePiLast, .sqDbrec, .cpuDb, .cqRing, .sqRing]
  | none | some .setDbrec | some .synchronize =>
    [.qpCpu, .sqWqePiLast, .sqDbrec, .cpuDb, .cqRing, .sqRing, .copyToDevice]

/-- **The stores of a reset, one after the other, are the reset.** -/
theorem foldl_resetOps (fail : Option ResetCall) (inDevice : Bool) {q : GverbsQp}
    (hq : q.cpuProxy = true) :
    (resetOps fail).foldl (GverbsQp.resetOp inDevice) q = (q.resetTrackingAndMemory fail).2 := by
  rcases fail with _ | (_ | _ | _ | _ | _ | _) <;> cases inDevice <;>
    simp [resetOps, GverbsQp.resetOp, GverbsQp.resetTrackingAndMemory, GverbsQp.resetIndices,
      GverbsQp.resetDbrec, GverbsQp.resetCqRing, GverbsQp.resetSqRing, hq]

/-- A reset that gets past its first CUDA call clears the words of the proxy. -/
theorem resetOps_eq {fail : Option ResetCall} (hf : fail ≠ some .copyToHost) :
    ∃ rest, resetOps fail = [.qpCpu, .sqWqePiLast, .sqDbrec, .cpuDb] ++ rest ∧
      ∀ op ∈ rest, op = .cqRing ∨ op = .sqRing ∨ op = .copyToDevice := by
  rcases fail with _ | (_ | _ | _ | _ | _ | _)
  · exact ⟨[.cqRing, .sqRing, .copyToDevice], rfl, by decide⟩
  · exact (hf rfl).elim
  · exact ⟨[.cqRing, .sqRing, .copyToDevice], rfl, by decide⟩
  · exact ⟨[], rfl, by decide⟩
  · exact ⟨[.cqRing], rfl, by decide⟩
  · exact ⟨[.cqRing, .sqRing], rfl, by decide⟩
  · exact ⟨[.cqRing, .sqRing, .copyToDevice], rfl, by decide⟩

/-- The call will store an index that is not zero. -/
def Carries : Option ProxyCall → Prop
  | none => False
  | some (.loaded v) => tmpDb v ≠ 0
  | some (.storing v todo) => tmpDb v ≠ 0 ∧ todo ≠ []

/-- What is left of a call's stores: `sq_wqe_pi_last` is set last. -/
def EndsSet (todo : List ProxyOp) : Prop := todo = [] ∨ ∃ l, .setLast ∉ l ∧ todo = l ++ [.setLast]

theorem endsSet_progressOps (mode : DbrModeExt) (nicHandler : NicHandler) :
    EndsSet (progressOps mode nicHandler) ∧ progressOps mode nicHandler ≠ [] := by
  unfold progressOps fullAssisted dbrAssisted
  split_ifs
  · exact ⟨.inr ⟨[.storeDbrec, .ringDb], by decide, rfl⟩, by decide⟩
  · exact ⟨.inr ⟨[.ringDb, .storeDbrec, .ringDb], by decide, rfl⟩, by decide⟩
  · exact ⟨.inr ⟨[.ringDb], by decide, rfl⟩, by decide⟩

theorem EndsSet.cons {op : ProxyOp} {todo : List ProxyOp} (h : EndsSet (op :: todo)) :
    op = .setLast ∧ todo = [] ∨ op ≠ .setLast ∧ todo ≠ [] ∧ EndsSet todo := by
  obtain h | ⟨_ | ⟨o, l⟩, hl, h⟩ := h
  · cases h
  · cases h
    exact .inl ⟨rfl, rfl⟩
  · rw [List.cons_append] at h
    cases h
    rw [List.mem_cons, not_or] at hl
    exact .inr ⟨Ne.symm hl.1, by simp, .inr ⟨l, hl.2, rfl⟩⟩

/-- A QP with `cpu_proxy`, the progress call under way, and how many stores of the reset are done.
`raced` records whether the call interfered with the reset: it carried an index when the reset
cleared `sq_wqe_pi_last`, or loaded one since; it ends when a call has written zero. -/
structure ResetSys where
  qp : GverbsQp
  sqDb : BitVec 64
  trace : List ProxyWrite
  call : Option ProxyCall
  done : ℕ
  raced : Prop

namespace ResetSys

/-- The memory the progress functions see. -/
def mem (s : ResetSys) : ProxyMem :=
  ⟨s.qp.cpuDb, s.qp.sqWqePiLast, s.sqDb, s.qp.sqDbrec, s.trace⟩

/-- The next step of the service thread. -/
def proxy (qpnDs : BitVec 32) (ops : List ProxyOp) (s : ResetSys) : ResetSys :=
  let r := s.mem.proxyStep qpnDs ops s.call
  { qp := { s.qp with
      cpuDb := r.1.cpuDb, sqWqePiLast := r.1.sqWqePiLast, sqDbrec := r.1.sqDbrec }
    sqDb := r.1.sqDb
    trace := r.1.trace
    call := r.2
    done := s.done
    raced := match s.call with
      | none => s.raced ∨ 1 < s.done ∧ tmpDb s.qp.cpuDb ≠ 0
      | some (.storing v (.setLast :: _)) => s.raced ∧ tmpDb v ≠ 0
      | _ => s.raced }

/-- Before the reset: any state of the QP, and any progress call under way. -/
structure Init (ops : List ProxyOp) (s : ResetSys) : Prop where
  cpuProxy : s.qp.cpuProxy = true
  call : ∀ v todo, s.call = some (.storing v todo) → todo <:+ ops
  done : s.done = 0
  raced : ¬ s.raced

/-- **One step**: the service thread moves, or the reset stores. -/
inductive Step (qpnDs : BitVec 32) (mode : DbrModeExt) (nicHandler : NicHandler)
    (fail : Option ResetCall) : ResetSys → ResetSys → Prop
  | proxy {s} : Step qpnDs mode nicHandler fail s (s.proxy qpnDs (progressOps mode nicHandler))
  | reset {s} (op : ResetOp) (h : (resetOps fail)[s.done]? = some op) :
      Step qpnDs mode nicHandler fail s { s with
        qp := s.qp.resetOp (mode = .noDbrSwEmulated ∧ nicHandler ≠ .cpuProxy) op
        done := s.done + 1
        raced := if op = .sqWqePiLast then Carries s.call else s.raced }

/-- From here on the words stay at zero, and no doorbell with another index is written. -/
def Quiet (step : ResetSys → ResetSys → Prop) (s : ResetSys) : Prop :=
  ∀ s', ReflTransGen step s s' → s'.qp.sqDbrec = 0 ∧ s'.qp.sqWqePiLast = 0 ∧
    ∃ new, s'.trace = new ++ s.trace ∧ ∀ p ∈ new.filterMap ProxyWrite.doorbell, tmpDb p = 0

/-- **The invariant**, by how far the reset is. -/
structure Inv (ops : List ProxyOp) (s : ResetSys) : Prop where
  todo : ∀ v todo, s.call = some (.storing v todo) → todo <:+ ops
  qpCpu : 0 < s.done → s.qp.qpCpu.sqWqePi = 0
  raced : 1 < s.done → (s.raced ↔ s.qp.sqWqePiLast ≠ 0 ∨ Carries s.call)
  sqDbrec : 2 < s.done → s.qp.sqDbrec = 0 ∨ s.raced ∧ .storeDbrec ∈ ops ∧
    ∀ v todo, s.call = some (.storing v todo) → tmpDb v = 0 → todo ≠ [] → .storeDbrec ∈ todo
  cpuDb : 3 < s.done → s.qp.cpuDb = 0

section Moves

variable {s : ResetSys} {qpnDs : BitVec 32} {ops todo : List ProxyOp} {v : ℕ}

theorem proxy_load (hc : s.call = none) :
    s.proxy qpnDs ops = { s with
      call := some (.loaded s.qp.cpuDb)
      raced := s.raced ∨ 1 < s.done ∧ tmpDb s.qp.cpuDb ≠ 0 } := by
  cases s
  cases hc
  rfl

theorem proxy_compare (hc : s.call = some (.loaded v)) :
    s.proxy qpnDs ops = { s with
      call := if s.mem.behind v then some (.storing v ops) else none } := by
  cases s
  cases hc
  rfl

theorem proxy_ringDb (hc : s.call = some (.storing v (.ringDb :: todo))) :
    s.proxy qpnDs ops = { s with
      sqDb := proxyDb qpnDs v
      trace := .db v (proxyDb qpnDs v) :: s.trace
      call := some (.storing v todo) } := by
  cases s
  cases hc
  rfl

theorem proxy_storeDbrec (hc : s.call = some (.storing v (.storeDbrec :: todo))) :
    s.proxy qpnDs ops = { s with
      qp := { s.qp with sqDbrec := proxyDbr v }
      trace := .dbr v (proxyDbr v) :: s.trace
      call := some (.storing v todo) } := by
  cases s
  cases hc
  rfl

theorem proxy_setLast (hc : s.call = some (.storing v (.setLast :: todo))) :
    s.proxy qpnDs ops = { s with
      qp := { s.qp with sqWqePiLast := (tmpDb v).toNat }
      call := some (.storing v todo)
      raced := s.raced ∧ tmpDb v ≠ 0 } := by
  cases s
  cases hc
  rfl

theorem proxy_return (hc : s.call = some (.storing v [])) :
    s.proxy qpnDs ops = { s with call := none } := by
  cases s
  cases hc
  rfl

end Moves

variable {s s' : ResetSys} {qpnDs : BitVec 32} {mode : DbrModeExt} {nicHandler : NicHandler}
  {fail : Option ResetCall} {ops : List ProxyOp}

theorem tmpDb_toNat_ne_zero {v : ℕ} : (tmpDb v).toNat ≠ 0 ↔ tmpDb v ≠ 0 := by
  rw [ne_eq, ne_eq, not_iff_not]
  exact ⟨fun h => BitVec.eq_of_toNat_eq h, fun h => by rw [h]; rfl⟩

theorem proxyDbr_zero {v : ℕ} (hv : tmpDb v = 0) : proxyDbr v = 0 := by
  rw [proxyDbr, hv]
  decide

/-- A call that does not ring yet has seen the index it loaded. -/
theorem last_of_not_behind {v : ℕ} (h : ¬ s.mem.behind v) : (tmpDb v).toNat = s.qp.sqWqePiLast :=
  of_not_not fun hne => h (decide_eq_true hne)

theorem endsSet_suffix {todo : List ProxyOp} (h : EndsSet ops) (ht : todo <:+ ops) :
    EndsSet todo := by
  obtain ⟨l, rfl⟩ := ht
  induction l with
  | nil => exact h
  | cons op l ih =>
    obtain ⟨-, hnil⟩ | ⟨-, -, hl⟩ := EndsSet.cons h
    · exact .inl (List.append_eq_nil_iff.1 hnil).2
    · exact ih hl

/-- A call that is storing goes on, or ends with the index it carried. -/
theorem Inv.store (h : s.Inv ops) (hops : EndsSet ops) {v : ℕ} {op : ProxyOp}
    {todo : List ProxyOp} (hc : s.call = some (.storing v (op :: todo))) :
    (s.proxy qpnDs ops).Inv ops := by
  obtain ⟨htodo, hcpu, hraced, hdbr, hdb⟩ := h
  rw [hc] at htodo hraced hdbr
  have hsuf := htodo v _ rfl
  have hsuf' : todo <:+ ops := (List.suffix_cons op todo).trans hsuf
  have hkeep : ∀ w l, some (ProxyCall.storing v todo) = some (.storing w l) → l <:+ ops := by
    intro w l hw
    cases hw
    exact hsuf'
  obtain ⟨rfl, rfl⟩ | ⟨hop, hnil, -⟩ := EndsSet.cons (endsSet_suffix hops hsuf)
  · -- the call ends: what it leaves is the index it carried
    rw [proxy_setLast hc]
    refine ⟨hkeep, hcpu, fun hd => ?_, fun hd => ?_, hdb⟩
    · have := hraced hd
      simp only [Carries, ne_eq, List.cons_ne_nil, not_false_iff, and_true] at this
      simp only [Carries, tmpDb_toNat_ne_zero, ne_eq, not_true, and_false, or_false]
      exact and_iff_right_of_imp fun hv => this.2 (.inr hv)
    · obtain h0 | ⟨hr, hmem, hz⟩ := hdbr hd
      · exact .inl h0
      · by_cases hv : tmpDb v = 0
        · have := hz v _ rfl hv (by simp)
          simp at this
        · refine .inr ⟨⟨hr, hv⟩, hmem, fun w l hw => ?_⟩
          cases hw
          exact fun h0 => (hv h0).elim
  · cases op with
    | setLast => exact (hop rfl).elim
    | ringDb =>
      rw [proxy_ringDb hc]
      refine ⟨hkeep, hcpu, fun hd => ?_, fun hd => ?_, hdb⟩
      · simpa [Carries, hnil] using hraced hd
      · refine (hdbr hd).imp_right fun hr => ⟨hr.1, hr.2.1, fun w l hw hv _ => ?_⟩
        cases hw
        simpa using hr.2.2 v _ rfl hv (by simp)
    | storeDbrec =>
      rw [proxy_storeDbrec hc]
      refine ⟨hkeep, hcpu, fun hd => ?_, fun hd => ?_, hdb⟩
      · simpa [Carries, hnil] using hraced hd
      · by_cases hv : tmpDb v = 0
        · left
          exact proxyDbr_zero hv
        · refine .inr ⟨(hraced (Nat.lt_of_succ_lt hd)).2 (.inr ⟨hv, by simp⟩),
            hsuf.subset (by simp), fun w l hw => ?_⟩
          cases hw
          exact fun h0 => (hv h0).elim

theorem Inv.proxy (h : s.Inv ops) (hops : EndsSet ops) (hne : ops ≠ []) :
    (s.proxy qpnDs ops).Inv ops := by
  have hinv := h
  obtain ⟨htodo, hcpu, hraced, hdbr, hdb⟩ := h
  have hidle {r : Prop} {c : Option ProxyCall} (hr : s.raced → r)
      (hc : ∀ v todo, c ≠ some (.storing v todo)) (hd : 2 < s.done) :
      s.qp.sqDbrec = 0 ∨ r ∧ .storeDbrec ∈ ops ∧ ∀ v todo, c = some (.storing v todo) →
        tmpDb v = 0 → todo ≠ [] → .storeDbrec ∈ todo :=
    (hdbr hd).imp_right fun h => ⟨hr h.1, h.2.1, fun v todo hv => (hc v todo hv).elim⟩
  rcases hc : s.call with _ | (v | ⟨v, _ | ⟨op, todo⟩⟩) <;> rw [hc] at htodo hraced hdbr
  · rw [proxy_load hc]
    refine ⟨nofun, hcpu, fun hd => ?_, hidle .inl nofun, hdb⟩
    have := hraced hd
    simp only [Carries, or_false] at this
    simp only [Carries, this, hd, true_and]
  · rw [proxy_compare hc]
    by_cases hb : s.mem.behind v
    · rw [if_pos hb]
      refine ⟨fun v todo hv => (by cases hv; exact List.suffix_rfl), hcpu, fun hd => ?_,
        fun hd => ?_, hdb⟩
      · simpa [Carries, hne] using hraced hd
      · exact (hdbr hd).imp_right fun hr => ⟨hr.1, hr.2.1, fun v todo hv => by cases hv; exact
          fun _ _ => hr.2.1⟩
    · rw [if_neg hb]
      refine ⟨nofun, hcpu, fun hd => ?_, hidle id nofun, hdb⟩
      have hl := last_of_not_behind hb
      rw [hraced hd, Carries, Carries, or_false, ← hl, tmpDb_toNat_ne_zero, or_self]
  · rw [proxy_return hc]
    refine ⟨nofun, hcpu, fun hd => ?_, hidle id nofun, hdb⟩
    simpa [Carries] using hraced hd
  · exact hinv.store hops hc

theorem Inv.reset (h : s.Inv ops) (hf : fail ≠ some .copyToHost) {inDevice : Bool} {op : ResetOp}
    (hop : (resetOps fail)[s.done]? = some op) :
    Inv ops { s with
      qp := s.qp.resetOp inDevice op
      done := s.done + 1
      raced := if op = .sqWqePiLast then Carries s.call else s.raced } := by
  obtain ⟨htodo, hcpu, hraced, hdbr, hdb⟩ := h
  obtain ⟨rest, hops, hrest⟩ := resetOps_eq hf
  rw [hops] at hop
  -- the first four stores clear the words one by one, the others leave them as they are
  rcases hd : s.done with _ | _ | _ | _ | n <;> rw [hd] at hop
  · cases hop
    exact ⟨htodo, fun _ => rfl, by simp, by simp, by simp⟩
  · cases hop
    exact ⟨htodo, fun _ => hcpu (by omega), fun _ => by simp [GverbsQp.resetOp], by simp, by simp⟩
  · cases hop
    refine ⟨htodo, fun _ => hcpu (by omega), fun _ => ?_, fun _ => .inl rfl, by simp⟩
    exact hraced (by omega)
  · cases hop
    refine ⟨htodo, fun _ => hcpu (by omega), fun _ => ?_, fun _ => ?_, fun _ => rfl⟩
    · exact hraced (by omega)
    · exact hdbr (by omega)
  · have hmem : op ∈ rest := List.mem_of_getElem? (i := n) (by simpa using hop)
    have hc := hcpu (by omega)
    have hr := hraced (by omega)
    have hdb' := hdb (by omega)
    obtain rfl | rfl | rfl := hrest op hmem
    · exact ⟨htodo, fun _ => hc, fun _ => hr, fun _ => hdbr (by omega), fun _ => hdb'⟩
    · exact ⟨htodo, fun _ => hc, fun _ => hr, fun _ => hdbr (by omega), fun _ => hdb'⟩
    · refine ⟨htodo, fun _ => hc, fun _ => hr, fun _ => hdbr (by omega), fun _ => ?_⟩
      show (if inDevice = true then _ else _) = 0
      split
      · exact hc
      · exact hdb'

theorem reachable_inv (hf : fail ≠ some .copyToHost)
    (h : Reachable (Init (progressOps mode nicHandler)) (Step qpnDs mode nicHandler fail) s) :
    s.Inv (progressOps mode nicHandler) := by
  obtain ⟨hends, hne⟩ := endsSet_progressOps mode nicHandler
  refine h.invariant (fun s hi => ⟨hi.call, ?_, ?_, ?_, ?_⟩) fun s s' hinv hs => ?_
  · simp [hi.done]
  · simp [hi.done]
  · simp [hi.done]
  · simp [hi.done]
  · cases hs with
    | proxy => exact hinv.proxy hends hne
    | reset op hop => exact hinv.reset hf hop

/-- After a reset with which no call interfered. -/
structure Calm (fail : Option ResetCall) (s : ResetSys) : Prop where
  done : (resetOps fail).length ≤ s.done
  sqDbrec : s.qp.sqDbrec = 0
  last : s.qp.sqWqePiLast = 0
  cpuDb : s.qp.cpuDb = 0
  call : ¬ Carries s.call

/-- The service thread finds nothing to do, or writes zero once more. -/
theorem Calm.proxy (h : Calm fail s) (qpnDs : BitVec 32) (ops : List ProxyOp) :
    Calm fail (s.proxy qpnDs ops) ∧ ∃ new, (s.proxy qpnDs ops).trace = new ++ s.trace ∧
      ∀ p ∈ new.filterMap ProxyWrite.doorbell, tmpDb p = 0 := by
  obtain ⟨hd, hdbr, hl, hdb, hcall⟩ := h
  rcases hc : s.call with _ | (v | ⟨v, _ | ⟨op, todo⟩⟩) <;> rw [hc] at hcall
  · rw [proxy_load hc]
    refine ⟨⟨hd, hdbr, hl, hdb, ?_⟩, [], rfl, by simp⟩
    simp [Carries, hdb, tmpDb]
  · rw [proxy_compare hc]
    refine ⟨⟨hd, hdbr, hl, hdb, ?_⟩, [], rfl, by simp⟩
    rw [if_neg]
    · exact id
    · have hv : tmpDb v = 0 := of_not_not hcall
      simp [ProxyMem.behind, mem, hv, hl]
  · rw [proxy_return hc]
    exact ⟨⟨hd, hdbr, hl, hdb, id⟩, [], rfl, by simp⟩
  · have hv : tmpDb v = 0 := by
      by_contra hv
      exact hcall ⟨hv, by simp⟩
    have hcall' : ¬ Carries (some (.storing v todo)) := fun hcar => hcar.1 hv
    cases op with
    | ringDb =>
      rw [proxy_ringDb hc]
      exact ⟨⟨hd, hdbr, hl, hdb, hcall'⟩, [_], rfl, by simp [ProxyWrite.doorbell, hv]⟩
    | storeDbrec =>
      rw [proxy_storeDbrec hc]
      exact ⟨⟨hd, proxyDbr_zero hv, hl, hdb, hcall'⟩, [_], rfl, by simp [ProxyWrite.doorbell]⟩
    | setLast =>
      rw [proxy_setLast hc]
      refine ⟨⟨hd, hdbr, ?_, hdb, hcall'⟩, [], rfl, by simp⟩
      rw [hv]
      rfl

theorem Calm.quiet (h : Calm fail s) : Quiet (Step qpnDs mode nicHandler fail) s := by
  intro s' hrun
  suffices Calm fail s' ∧ ∃ new, s'.trace = new ++ s.trace ∧
      ∀ p ∈ new.filterMap ProxyWrite.doorbell, tmpDb p = 0 from
    ⟨this.1.sqDbrec, this.1.last, this.2⟩
  induction hrun with
  | refl => exact ⟨h, [], rfl, by simp⟩
  | @tail s₁ s₂ _ hs ih =>
    obtain ⟨hcalm, new, htr, hz⟩ := ih
    cases hs with
    | proxy =>
      obtain ⟨hcalm', new', htr', hz'⟩ :=
        hcalm.proxy qpnDs (progressOps mode nicHandler)
      refine ⟨hcalm', new' ++ new, by rw [htr', htr, List.append_assoc], ?_⟩
      intro p hp
      rw [List.filterMap_append, List.mem_append] at hp
      exact hp.elim (hz' p) (hz p)
    | reset op hop =>
      rw [List.getElem?_eq_none hcalm.done] at hop
      cases hop

/-- A call runs to its end and leaves the index it carries. -/
theorem storing_finish {v : ℕ} {todo : List ProxyOp} (hc : s.call = some (.storing v todo))
    (hends : EndsSet todo) (hne : todo ≠ []) :
    ∃ s', ReflTransGen (Step qpnDs mode nicHandler fail) s s' ∧
      s'.qp.sqWqePiLast = (tmpDb v).toNat := by
  induction todo generalizing s with
  | nil => exact (hne rfl).elim
  | cons op todo ih =>
    have hs : Step qpnDs mode nicHandler fail s _ := .proxy
    obtain ⟨rfl, rfl⟩ | ⟨hop, hnil, hends'⟩ := hends.cons
    · rw [proxy_setLast hc] at hs
      exact ⟨_, .single hs, rfl⟩
    · have hc' : (s.proxy qpnDs (progressOps mode nicHandler)).call = some (.storing v todo) := by
        cases op with
        | setLast => exact (hop rfl).elim
        | ringDb => rw [proxy_ringDb hc]
        | storeDbrec => rw [proxy_storeDbrec hc]
      obtain ⟨s', hrun, hl⟩ := ih hc' hends' hnil
      exact ⟨s', .head hs hrun, hl⟩

variable (qpnDs fail) in
/-- A call that carries an index leaves it. -/
theorem carries_finish (hinv : s.Inv (progressOps mode nicHandler)) (hc : Carries s.call) :
    ∃ s', ReflTransGen (Step qpnDs mode nicHandler fail) s s' ∧ s'.qp.sqWqePiLast ≠ 0 := by
  obtain ⟨hends, hne⟩ := endsSet_progressOps mode nicHandler
  rcases hcall : s.call with _ | (v | ⟨v, todo⟩) <;> rw [hcall] at hc
  · exact hc.elim
  · by_cases hb : s.mem.behind v
    · have hs : Step qpnDs mode nicHandler fail s _ := .proxy
      have hcall' : (s.proxy qpnDs (progressOps mode nicHandler)).call =
          some (.storing v (progressOps mode nicHandler)) := by rw [proxy_compare hcall, if_pos hb]
      obtain ⟨s', hrun, hl⟩ := storing_finish hcall' hends hne
      exact ⟨s', .head hs hrun, by rw [hl]; exact tmpDb_toNat_ne_zero.2 hc⟩
    · exact ⟨s, .refl, by rw [← last_of_not_behind hb]; exact tmpDb_toNat_ne_zero.2 hc⟩
  · have hends' := endsSet_suffix hends (hinv.todo v todo hcall)
    obtain ⟨s', hrun, hl⟩ := storing_finish hcall hends' hc.2
    exact ⟨s', hrun, by rw [hl]; exact tmpDb_toNat_ne_zero.2 hc.1⟩

/-- **A finished reset has left everything at zero exactly if no call interfered.** From any state
of the QP and of the progress call at the beginning of the reset, in any order of steps: once the
reset has returned, the record and `sq_wqe_pi_last` are zero and stay so, and no doorbell with
another index is written, if and only if no call carried an index when the reset cleared
`sq_wqe_pi_last` or loaded one between that and the clearing of `cpu_db`, or a later call has
written zero over it already. -/
theorem unraced_iff (hf : fail ≠ some .copyToHost)
    (h : Reachable (Init (progressOps mode nicHandler)) (Step qpnDs mode nicHandler fail) s)
    (hdone : s.done = (resetOps fail).length) :
    Quiet (Step qpnDs mode nicHandler fail) s ↔ ¬ s.raced := by
  have hinv := reachable_inv hf h
  have hlen : 3 < s.done := by
    obtain ⟨rest, hops, -⟩ := resetOps_eq hf
    rw [hdone, hops, List.length_append]
    exact Nat.lt_of_lt_of_le (by decide) (Nat.le_add_right _ _)
  have hraced := hinv.raced (by omega)
  constructor
  · intro hq hr
    obtain hl | hc := hraced.1 hr
    · exact hl (hq s .refl).2.1
    · obtain ⟨s', hrun, hl⟩ := carries_finish qpnDs fail hinv hc
      exact hl (hq s' hrun).2.1
  · intro hr
    obtain ⟨hl, hc⟩ := not_or.1 (mt hraced.2 hr)
    refine Calm.quiet ⟨hdone.ge, ?_, not_not.1 hl, hinv.cpuDb hlen, hc⟩
    exact (hinv.sqDbrec (by omega)).resolve_right fun hd => hr hd.1

/-- The service thread moves some steps. -/
theorem proxy_run (n : ℕ) : ReflTransGen (Step qpnDs mode nicHandler fail) s
    ((proxy qpnDs (progressOps mode nicHandler))^[n] s) := by
  induction n with
  | zero => exact .refl
  | succ n ih =>
    rw [Function.iterate_succ_apply']
    exact ih.tail .proxy

/-- A QP of which index 1 has been published and not rung. -/
def posted : ResetSys where
  qp :=
    { qpGpu := ⟨1, 1, 0, 0, 0, 0⟩, qpCpu := ⟨0, 0, 0, 0, 0, 0⟩, sqWqePiLast := 0, cpuProxy := true
      cpuDb := 1, sqDbrec := 0, cqeNum := 4, cqRing := mlx5InitCqes 4 fun _ => zeroCqe
      sqWqeNum := 4, sqRing := fun _ _ => 0 }
  sqDb := 0
  trace := []
  call := none
  done := 0
  raced := False

theorem init_posted {ops : List ProxyOp} : Init ops posted :=
  ⟨rfl, fun _ _ h => (by cases h), rfl, id⟩

/-- The service thread loads index 1, the reset runs from begin to end, and the call goes on. -/
theorem stored_after_reset :
    ∃ s s' : ResetSys,
      Reachable (Init (progressOps .validDbr .cpuProxy)) (Step 0 .validDbr .cpuProxy none) s ∧
      s.done = (resetOps none).length ∧
      ReflTransGen (Step 0 .validDbr .cpuProxy none) s s' ∧
      s'.qp.sqDbrec = prepareDbr 1 ∧ s'.qp.sqDbrec ≠ 0 ∧ s'.qp.sqWqePiLast = 1 ∧
      s.trace = [] ∧ s'.trace.filterMap ProxyWrite.doorbell = [1, 1] := by
  have h₀ : Reachable (Init (progressOps .validDbr .cpuProxy))
    (Step 0 .validDbr .cpuProxy none) posted := .start init_posted
  have h₁ := h₀.next .proxy
  have h₂ := (((h₁.next (.reset .qpCpu rfl)).next (.reset .sqWqePiLast rfl)).next
    (.reset .sqDbrec rfl)).next (.reset .cpuDb rfl)
  have h₃ := ((h₂.next (.reset .cqRing rfl)).next (.reset .sqRing rfl)).next
    (.reset .copyToDevice rfl)
  refine ⟨_, _, h₃, rfl, proxy_run 5, proxyDbr_eq 1, ?_, rfl, rfl, rfl⟩
  show proxyDbr 1 ≠ 0
  decide

/-- Between two calls a reset is complete. -/
theorem quiet_between_calls :
    ∃ s : ResetSys,
      Reachable (Init (progressOps .validDbr .cpuProxy)) (Step 0 .validDbr .cpuProxy none) s ∧
      Quiet (Step 0 .validDbr .cpuProxy none) s := by
  have h₀ : Reachable (Init (progressOps .validDbr .cpuProxy))
    (Step 0 .validDbr .cpuProxy none) posted := .start init_posted
  have h₂ := (((h₀.next (.reset .qpCpu rfl)).next (.reset .sqWqePiLast rfl)).next
    (.reset .sqDbrec rfl)).next (.reset .cpuDb rfl)
  have h₃ := ((h₂.next (.reset .cqRing rfl)).next (.reset .sqRing rfl)).next
    (.reset .copyToDevice rfl)
  exact ⟨_, h₃, (unraced_iff (by decide) h₃ rfl).2 id⟩

end ResetSys

end Gpunetio
