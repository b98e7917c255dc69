import Gpunetio.Door.Submit

/-!
# Submissions with a doorbell record

Any number of threads on any number of QPs run `submit_db`, `submit_bf` and `submit_db_multi_qps`.
The last one locks, raises and first rings its QPs one after the other, and only then goes through
them again to store the record, ring and unlock; the other two are the case of one entry.

* `SubmitOp`, `SubmitOp.entries`: the three functions and the QPs they go through;
* `Running`, `Running.advance`: the two loops of a call and their control flow;
* `Running.stage`: where each entry of a call is, as a call of its own on its QP;
* `MultiSys.Step`; `MultiSys.on`, `MultiSys.reachable_on`: one QP of the system is a `SubmitSys`;
* **`MultiSys.submit_in_order`**: indices never go back and none is lost.
-/

namespace Gpunetio

open Transition

/-- `doca_gpu_dev_verbs_submit_db`, `doca_gpu_dev_verbs_submit_bf`,
`doca_gpu_dev_verbs_submit_db_multi_qps`, without `SKIP_DB_RINGING`. -/
inductive SubmitOp (Q : Type*)
  | db (qp : Q) (prodIndex : ℕ)
  | bf (qp : Q) (prodIndex : ℕ) (smemWqe : BitVec 64)
  | multi (qps : List (Q × ℕ))
deriving DecidableEq

variable {Q T : Type*}

/-- The QPs a call goes through; without TMA copies `submit_bf` is `submit_db`. -/
def SubmitOp.entries (tma : Bool) : SubmitOp Q → List (Q × SubmitCall)
  | db q p => [(q, .db p)]
  | bf q p w => [(q, if tma then .bf p w else .db p)]
  | multi qps => qps.map fun e => (e.1, .db e.2)

/-- A call under way: it works on entry `i`, spins on the lock or is about to execute a stage;
`won i` is `old_prod_indices[i] < prod_indices[i]`. -/
structure Running (Q : Type*) where
  entries : List (Q × SubmitCall)
  won : ℕ → Bool
  i : ℕ
  at? : Option Stage

namespace Running

/-- The first stage of an entry in the second loop. -/
def second (won : Bool) : Stage := if won then .updateDbr else .unlock

/-- A call enters its first loop. -/
def start (entries : List (Q × SubmitCall)) : Running Q := ⟨entries, fun _ => false, 0, none⟩

/-- The next entry of the first loop, or the second loop. -/
def nextFirst (r : Running Q) : Running Q :=
  if r.i + 1 < r.entries.length then { r with i := r.i + 1, at? := none }
  else { r with i := 0, at? := some (second (r.won 0)) }

/-- The next entry of the second loop, or the end of the call. -/
def nextSecond (r : Running Q) : Option (Running Q) :=
  if r.i + 1 < r.entries.length then
    some { r with i := r.i + 1, at? := some (second (r.won (r.i + 1))) }
  else none

/-- **Control flow of a call** after a stage of entry `i`; `won` is what `atomic_max` found. -/
def advance (won : Bool) (r : Running Q) : Stage → Option (Running Q)
  | .atomicMax =>
    let r' := { r with won := Function.update r.won r.i won }
    if won then some { r' with at? := some .ringFirst } else some r'.nextFirst
  | .ringFirst => some r.nextFirst
  | .updateDbr => some { r with at? := some .ringSecond }
  | .ringSecond => some { r with at? := some .unlock }
  | .unlock => r.nextSecond

/-- The call is in its first loop. -/
def inFirst (r : Running Q) : Bool :=
  match r.at? with
  | none | some .atomicMax | some .ringFirst => true
  | _ => false

/-- Where entry `j` is: finished, or spinning on its lock, or in front of a stage. -/
def stage (r : Running Q) (j : ℕ) : Option (Option Stage) :=
  if j = r.i then some r.at?
  else if r.inFirst then some (if j < r.i then some (second (r.won j)) else none)
  else if j < r.i then none else some (some (second (r.won j)))

/-- The entry a call works on exists, and its first ring follows a raise of `sq_wqe_pi`. -/
structure Ok (r : Running Q) : Prop where
  lt : r.i < r.entries.length
  won : r.at? = some .ringFirst → r.won r.i = true

theorem ok_start {entries : List (Q × SubmitCall)} (h : entries ≠ []) : (start entries).Ok :=
  ⟨List.length_pos_iff.2 h, fun h => nomatch h⟩

theorem stage_start {entries : List (Q × SubmitCall)} (j : ℕ) :
    (start entries).stage j = some none := by
  by_cases hj : j = 0 <;> simp [stage, start, inFirst, hj]

theorem second_ne (w : Bool) : second w ≠ .ringFirst := by cases w <;> decide

theorem Ok.nextFirst {r : Running Q} (h : 0 < r.entries.length) : r.nextFirst.Ok := by
  unfold Running.nextFirst
  split
  · exact ⟨‹_›, fun h => nomatch h⟩
  · exact ⟨h, fun h => (second_ne _ (Option.some.inj h)).elim⟩

theorem Ok.advance {r r' : Running Q} {w : Bool} {st : Stage} (h : r.Ok)
    (hr : r.advance w st = some r') : r'.Ok := by
  have hpos : 0 < r.entries.length := (Nat.zero_le _).trans_lt h.lt
  cases st with
  | atomicMax =>
    cases w <;> cases hr
    · exact Ok.nextFirst hpos
    · exact ⟨h.lt, fun _ => Function.update_self ..⟩
  | ringFirst => cases hr; exact Ok.nextFirst hpos
  | updateDbr | ringSecond => cases hr; exact ⟨h.lt, fun h => nomatch h⟩
  | unlock =>
    simp only [Running.advance, nextSecond] at hr
    split at hr <;> cases hr
    exact ⟨‹_›, fun h => (second_ne _ (Option.some.inj h)).elim⟩

theorem advance_entries {r r' : Running Q} {w : Bool} {st : Stage}
    (hr : r.advance w st = some r') : r'.entries = r.entries := by
  have hn : ∀ r : Running Q, r.nextFirst.entries = r.entries := fun r => by
    unfold Running.nextFirst; split <;> rfl
  cases st with
  | atomicMax => cases w <;> cases hr <;> first | rfl | exact hn _
  | ringFirst => cases hr; exact hn r
  | updateDbr | ringSecond => cases hr; rfl
  | unlock =>
    simp only [Running.advance, nextSecond] at hr
    split at hr <;> cases hr
    rfl

theorem stage_first {r : Running Q} (h : r.inFirst = true) (j : ℕ) :
    r.stage j = if j = r.i then some r.at? else
      some (if j < r.i then some (second (r.won j)) else none) := by
  rw [stage, if_pos h]

theorem stage_second {r : Running Q} (h : r.inFirst = false) (j : ℕ) :
    r.stage j = if j = r.i then some r.at? else
      if j < r.i then none else some (some (second (r.won j))) := by
  rw [stage, if_neg (Bool.eq_false_iff.1 h)]

theorem inFirst_second {r : Running Q} {w : Bool} (h : r.at? = some (second w)) :
    r.inFirst = false := by
  cases w <;> simp [inFirst, h, second]

/-- Entering the next entry of the first loop moves no other entry. -/
theorem stage_nextFirst {r : Running Q} (hlt : r.i < r.entries.length) {j : ℕ}
    (hj : j < r.entries.length) (hf : r.inFirst = true) :
    r.nextFirst.stage j = if j = r.i then some (some (second (r.won j))) else r.stage j := by
  rw [stage_first hf]
  unfold nextFirst
  split
  · rw [stage_first rfl]
    dsimp only
    grind
  · rw [stage_second (inFirst_second rfl)]
    dsimp only
    grind

/-- **A stage moves the entry it belongs to and no other.** -/
theorem stage_advance {r : Running Q} {w : Bool} {st : Stage} (h : r.Ok) (hst : r.at? = some st)
    {j : ℕ} (hj : j < r.entries.length) :
    ((r.advance w st).bind fun r' => r'.stage j) =
      if j = r.i then (st.next w).map some else r.stage j := by
  cases st with
  | atomicMax =>
    have hf : r.inFirst = true := by simp [inFirst, hst]
    cases w with
    | false =>
      have := @stage_nextFirst Q { r with won := Function.update r.won r.i false } h.lt j hj hf
      simp only [advance, Bool.false_eq_true, if_false, Option.bind_some, this]
      by_cases hij : j = r.i
      · simp [hij, Stage.next, second]
      · simp [stage, inFirst, hij, hst]
    | true =>
      by_cases hij : j = r.i
      · simp [advance, stage, hij, Stage.next]
      · simp [advance, stage, inFirst, hij, hst]
  | ringFirst =>
    have hf : r.inFirst = true := by simp [inFirst, hst]
    simp only [advance, Option.bind_some, stage_nextFirst h.lt hj hf]
    by_cases hij : j = r.i
    · simp [hij, Stage.next, second, h.won hst]
    · simp [hij]
  | updateDbr | ringSecond =>
    by_cases hij : j = r.i <;> simp [advance, stage, inFirst, hij, hst, Stage.next]
  | unlock =>
    rw [stage_second (by simp [inFirst, hst]), advance, nextSecond]
    split
    · rw [Option.bind_some, stage_second (inFirst_second rfl)]
      dsimp only [Stage.next]
      grind
    · rw [Option.bind_none, Stage.next]
      grind

variable [DecidableEq Q]

/-- Entry `j` as a call on `q`, if it is one. -/
def callOn (q : Q) (r : Running Q) (j : ℕ) : Option (SubmitCall × Option Stage) :=
  match r.entries[j]? with
  | some (q', c) => if q' = q then (r.stage j).map fun o => (c, o) else none
  | none => none

end Running

/-- The QPs and the threads that submit to them; `calls q` collects the indices submitted to `q`. -/
structure MultiSys (Q T : Type*) where
  door : Q → Door
  thread : T → Option (Running Q)
  calls : Q → Set ℕ

namespace MultiSys

/-- No call has begun. -/
structure Init (s : MultiSys Q T) : Prop where
  door : ∀ q, (s.door q).Fresh
  thread : ∀ t, s.thread t = none
  calls : ∀ q, s.calls q = ∅

variable [DecidableEq Q] [DecidableEq T]

/-- **One step**: a thread calls a submit function, or takes the lock it spins on, or executes a
stage. -/
inductive Step (tma : Bool) (qpnDs : Q → BitVec 32) : MultiSys Q T → MultiSys Q T → Prop
  | call {s} (t : T) (op : SubmitOp Q) (h : s.thread t = none) (hne : op.entries tma ≠ []) :
      Step tma qpnDs s
        { door := s.door
          thread := Function.update s.thread t (some (.start (op.entries tma)))
          calls := fun q => s.calls q ∪ {p | ∃ c, (q, c) ∈ op.entries tma ∧ c.prodIndex = p} }
  | acquire {s} (t : T) {r : Running Q} {q c} (h : s.thread t = some r) (hr : r.at? = none)
      (he : r.entries[r.i]? = some (q, c)) (hl : (s.door q).sqLock = false) :
      Step tma qpnDs s
        { door := Function.update s.door q { s.door q with sqLock := true }
          thread := Function.update s.thread t (some { r with at? := some .atomicMax })
          calls := s.calls }
  | exec {s} (t : T) {r : Running Q} {q c st} (h : s.thread t = some r) (hr : r.at? = some st)
      (he : r.entries[r.i]? = some (q, c)) :
      Step tma qpnDs s
        { door := Function.update s.door q ((s.door q).exec (qpnDs q) c st)
          thread := Function.update s.thread t (r.advance ((s.door q).won c) st)
          calls := s.calls }

/-- One QP of the system; its agents are the entries of the threads' calls. -/
def on (q : Q) (s : MultiSys Q T) : SubmitSys (T × ℕ) where
  door := s.door q
  call := fun a => (s.thread a.1).bind fun r => r.callOn q a.2
  calls := s.calls q

variable {tma : Bool} {qpnDs : Q → BitVec 32} {s s' : MultiSys Q T}

/-- Every call under way is at an entry it has. -/
def AllOk (s : MultiSys Q T) : Prop := ∀ t r, s.thread t = some r → r.Ok

omit [DecidableEq Q] in
theorem AllOk.update {s' : MultiSys Q T} {t : T} {o : Option (Running Q)} (h : s.AllOk)
    (ho : ∀ r, o = some r → r.Ok) (hs' : s'.thread = Function.update s.thread t o) : s'.AllOk := by
  intro t' r hr
  rw [hs'] at hr
  obtain ⟨-, hr⟩ | ⟨-, hr⟩ := update_eq_some.1 hr
  · exact ho r hr
  · exact h t' r hr

theorem AllOk.step (h : s.AllOk) (hs : Step tma qpnDs s s') : s'.AllOk := by
  cases hs with
  | call t op _ hne => exact h.update (fun r hr => Option.some.inj hr ▸ Running.ok_start hne) rfl
  | @acquire t r q c ht =>
    refine h.update (fun r' hr' => ?_) rfl
    cases hr'
    exact ⟨(h t r ht).lt, fun h => nomatch h⟩
  | @exec t r q c st ht => exact h.update (fun r' hr' => (h t r ht).advance hr') rfl

theorem reachable_allOk (h : Reachable Init (Step tma qpnDs) s) : s.AllOk :=
  h.invariant (fun s hi t r hr => by rw [hi.thread] at hr; cases hr) fun _ _ => AllOk.step

/-- Replacing a call whose entries on `q` stay where they are, but for one. -/
theorem call_update {q : Q} {t : T} {r : Running Q} {o : Option (Running Q)} {j : ℕ}
    {v : Option (SubmitCall × Option Stage)} (ht : s.thread t = some r)
    (ho : ∀ k, (o.bind fun r' => r'.callOn q k) = if k = j then v else r.callOn q k) :
    (fun a : T × ℕ => (Function.update s.thread t o a.1).bind fun r' => r'.callOn q a.2) =
      Function.update (s.on q).call (t, j) v := by
  funext b
  obtain ⟨t', k⟩ := b
  rcases eq_or_ne t' t with rfl | htt
  · simp only [Function.update_self, ho]
    by_cases hk : k = j
    · subst hk; simp
    · rw [if_neg hk, Function.update_of_ne (by simpa using hk)]
      simp [on, ht]
  · have hne : (t', k) ≠ (t, j) := by simp [htt]
    rw [Function.update_of_ne hne]
    simp only [on, Function.update_of_ne htt]

/-- A call that moves one entry moves the call of that entry's QP. -/
theorem callOn_advance {r : Running Q} {o : Option (Running Q)} {q₀ : Q} {c : SubmitCall}
    {v : Option (Option Stage)} (he : r.entries[r.i]? = some (q₀, c))
    (hent : ∀ r', o = some r' → r'.entries = r.entries)
    (hst : ∀ j < r.entries.length,
      (o.bind fun r' => r'.stage j) = if j = r.i then v else r.stage j) (q : Q) (k : ℕ) :
    (o.bind fun r' => r'.callOn q k) =
      if q₀ = q ∧ k = r.i then v.map fun o => (c, o) else r.callOn q k := by
  have hbind : (o.bind fun r' => r'.callOn q k) = match r.entries[k]? with
      | some (q', c') => if q' = q then (o.bind fun r' => r'.stage k).map fun o => (c', o) else none
      | none => none := by
    cases o with
    | none => rcases r.entries[k]? with _ | ⟨q', c'⟩ <;> simp
    | some r' => simp [Running.callOn, hent r' rfl]
  rw [hbind, Running.callOn]
  rcases hk : r.entries[k]? with _ | ⟨q', c'⟩
  · rw [if_neg]
    rintro ⟨-, rfl⟩
    rw [hk] at he; cases he
  · rw [hst k (List.getElem?_eq_some_iff.1 hk).1]
    rcases eq_or_ne k r.i with rfl | hki
    · rw [he] at hk
      cases hk
      by_cases hq : q₀ = q <;> simp [hq]
    · simp [hki]

theorem on_call {op : SubmitOp Q} {t : T} (h : s.thread t = none) (q : Q) :
    SubmitSys.Step (qpnDs q) (s.on q)
      (on q
        { door := s.door
          thread := Function.update s.thread t (some (.start (op.entries tma)))
          calls := fun q =>
            s.calls q ∪ {p | ∃ c, (q, c) ∈ op.entries tma ∧ c.prodIndex = p} }) := by
  -- the entries of the call on `q` begin at once
  let new : T × ℕ → Option SubmitCall := fun a =>
    if a.1 = t then (op.entries tma)[a.2]?.bind fun e => if e.1 = q then some e.2 else none
    else none
  convert SubmitSys.Step.call new ?_ using 1
  · simp only [on, SubmitSys.begin, SubmitSys.mk.injEq, true_and]
    constructor
    · funext a
      obtain ⟨t', k⟩ := a
      rcases eq_or_ne t' t with rfl | ht
      · simp only [Function.update_self, Option.bind_some, Running.callOn, Running.stage_start, new,
          if_true, h, Option.bind_none, Option.map_some]
        rcases hk : (op.entries tma)[k]? with _ | ⟨q', c⟩
        · simp [Running.start, hk]
        · by_cases hq : q' = q <;> simp [Running.start, hk, hq]
      · simp [new, ht]
    · congr 1
      ext p
      simp only [Set.mem_ofPred_eq, new, List.mem_iff_getElem?, Prod.exists]
      constructor
      · rintro ⟨c, ⟨k, hk⟩, rfl⟩
        exact ⟨t, k, c, by simp [hk], rfl⟩
      · rintro ⟨t', k, c, hc, rfl⟩
        rcases hk : (op.entries tma)[k]? with _ | ⟨q', c'⟩
        · simp [hk] at hc
        · simp only [hk, Option.bind_some, Option.ite_none_right_eq_some, Option.some.injEq] at hc
          obtain ⟨-, rfl, rfl⟩ := hc
          exact ⟨c', ⟨k, hk⟩, rfl⟩
  · rintro ⟨t', k⟩ c hc
    by_cases ht : t' = t
    · subst ht; simp [on, h]
    · simp [new, ht] at hc

theorem on_advance {r : Running Q} {o : Option (Running Q)} {q₀ : Q} {c : SubmitCall} {t : T}
    {v : Option (Option Stage)} {d : Door} (ht : s.thread t = some r)
    (he : r.entries[r.i]? = some (q₀, c)) (hent : ∀ r', o = some r' → r'.entries = r.entries)
    (hst : ∀ j < r.entries.length,
      (o.bind fun r' => r'.stage j) = if j = r.i then v else r.stage j) (q : Q) :
    on q
        { door := Function.update s.door q₀ d
          thread := Function.update s.thread t o
          calls := s.calls } =
      if q₀ = q then
        { s.on q with
          door := d
          call := Function.update (s.on q).call (t, r.i) (v.map fun o => (c, o)) }
      else s.on q := by
  have hcall := callOn_advance he hent hst q
  split
  · subst q₀
    simp only [on, Function.update_self, SubmitSys.mk.injEq, true_and, and_true]
    exact call_update ht fun k => (hcall k).trans (by simp)
  · simp only [on, Function.update_of_ne (Ne.symm ‹q₀ ≠ q›), SubmitSys.mk.injEq, true_and, and_true]
    refine (@call_update _ _ _ _ s q t r o r.i (r.callOn q r.i) ht fun k => ?_).trans ?_
    · rw [hcall k, if_neg (by tauto)]
      by_cases hk : k = r.i <;> simp [hk]
    · refine (congrArg _ ?_).trans (Function.update_eq_self (t, r.i) (s.on q).call)
      simp [on, ht]

/-- **One QP of the system is a `SubmitSys`.** -/
theorem reachable_on (h : Reachable Init (Step tma qpnDs) s) (q : Q) :
    Reachable SubmitSys.Init (SubmitSys.Step (qpnDs q)) (s.on q) := by
  refine h.simulate (on q) (fun s hi => ?_) fun s s' hr _ hs => ?_
  · exact ⟨hi.door q, fun a => by simp [on, hi.thread], hi.calls q⟩
  · cases hs with
    | call t op ht => exact .single (on_call ht q)
    | @acquire t r q₀ c ht hat he hl =>
      have hst : ∀ j < r.entries.length,
          ((some { r with at? := some .atomicMax }).bind fun r' : Running Q => r'.stage j) =
            if j = r.i then some (some .atomicMax) else r.stage j := fun j _ => by
        by_cases hj : j = r.i <;> simp [Running.stage, Running.inFirst, hat, hj]
      have hent : ∀ r', some { r with at? := some .atomicMax } = some r' →
          r'.entries = r.entries := fun r' hr' => by cases hr'; rfl
      rw [on_advance ht he hent hst]
      split
      · subst q₀
        refine .single (SubmitSys.Step.acquire (t, r.i) ?_ hl)
        simp [on, ht, Running.callOn, he, Running.stage, hat]
      · exact .refl
    | @exec t r q₀ c st ht hat he =>
      rw [on_advance ht he (fun r' hr' => Running.advance_entries hr')
        fun j hj => Running.stage_advance (reachable_allOk hr t r ht) hat hj]
      split
      · subst q₀
        have hc : (s.on q).call (t, r.i) = some (c, some st) := by
          simp [on, ht, Running.callOn, he, Running.stage, hat]
        simpa only [Option.map_map] using .single (SubmitSys.Step.exec (t, r.i) hc)
      · exact .refl

/-- **Indices never go back and none is lost.** On every QP the indices written to the doorbell and
to the record are non-decreasing and a record is followed by its doorbell before the lock is
released. When all calls have finished, `sq_wqe_pi` is the greatest index submitted, it was the last
to be rung, and the doorbell and the record carry it modulo `2^16`. -/
theorem submit_in_order (h : Reachable Init (Step tma qpnDs) s) (q : Q) :
    (s.door q).doorbells.Pairwise (· ≥ ·) ∧ (s.door q).records.Pairwise (· ≥ ·) ∧
      Followed (s.door q).trace ∧
      ((∀ t, s.thread t = none) →
        IsGreatest (insert 0 (s.calls q)) (s.door q).sqWqePi ∧
        (s.door q).doorbells.head?.getD 0 = (s.door q).sqWqePi ∧
        ((s.door q).sqWqePi ≠ 0 → (s.door q).sqDb = prepareDb (qpnDs q) (s.door q).sqWqePi ∧
          dbIndex (s.door q).sqDb = (s.door q).sqWqePi % 2 ^ 16) ∧
        dbrIndex (s.door q).sqDbrec = (s.door q).sqWqePi % 2 ^ 16) := by
  have hinv := SubmitSys.reachable_inv (reachable_on h q)
  refine ⟨hinv.ordered.doorbells, hinv.ordered.records, hinv.ordered.followed, fun hidle => ?_⟩
  obtain ⟨-, hset, hmax⟩ := hinv.greatest fun a => by simp [on, hidle]
  refine ⟨hmax, hset.last, fun hpi => ?_, ?_⟩
  · have hdb := hset.sqDb.resolve_left hpi
    exact ⟨hdb, (congrArg dbIndex hdb).trans (dbIndex_prepareDb _ _)⟩
  · exact (congrArg dbrIndex hset.sqDbrec).trans (dbrIndex_prepareDbr _)

/-- One QP and one thread, which has not called yet. -/
def idle : MultiSys Unit Unit := ⟨fun _ => ⟨false, 0, 0, 0, []⟩, fun _ => none, fun _ => ∅⟩

theorem init_idle : Init idle := ⟨fun _ => ⟨rfl, rfl, rfl, rfl⟩, fun _ => rfl, fun _ => rfl⟩

theorem one_submit_in_order :
    ∃ s : MultiSys Unit Unit, Reachable Init (Step true fun _ => 0) s ∧ (∀ t, s.thread t = none) ∧
      (s.door ()).trace = [.unlock, .db 3, .dbr 3, .db 3] ∧
      IsGreatest (insert 0 (s.calls ())) (s.door ()).sqWqePi ∧
      dbrIndex (s.door ()).sqDbrec = 3 := by
  have h₀ := (Reachable.start init_idle).next
    (@Step.call Unit Unit _ _ true (fun _ => 0) idle () (.db () 3) rfl (by decide))
  have h₁ := h₀.next (.acquire () rfl rfl rfl rfl)
  have h₂ := h₁.next (.exec () rfl rfl rfl)
  have h₃ := h₂.next (.exec () rfl rfl rfl)
  have h₄ := h₃.next (.exec () rfl rfl rfl)
  have h₅ := h₄.next (.exec () rfl rfl rfl)
  have h₆ := h₅.next (.exec () rfl rfl rfl)
  obtain ⟨-, -, -, hend⟩ := submit_in_order h₆ ()
  obtain ⟨hmax, -, -, hrec⟩ := hend fun _ => rfl
  exact ⟨_, h₆, fun _ => rfl, rfl, hmax, hrec⟩

end MultiSys

end Gpunetio
