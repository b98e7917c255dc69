import Gpunetio.Lat.Lockstep
import Gpunetio.Lib.Settling

/-!
# The latency test ends

No state is stuck before the end, and every step but a read that fails brings the end closer.

* `Party.work`, `measure`: the steps that are left;
* `pollCq_isSome`: the poll of the CQ ends once every WQE is completed;
* `Inv.lower`, `Inv.moves`: a step uses one up, and there is one; `settles`;
* **`ends`**: every run ends under a fair scheduler, with all messages sent, delivered and seen;
* **`lockstep_iff`**: when the processes run in lockstep.
-/

namespace Gpunetio.Lat

open Transition Settling

variable {cfg : Bench}

namespace Bench

/-- The messages of one process in all. -/
def total (cfg : Bench) : ℕ := max cfg.launches 1 * cfg.numIters

end Bench

namespace Party

/-- The steps up to the next message, as far as the thread's place tells. -/
def weight (numIters : ℕ) (p : Party) : ℕ :=
  match p.pc with
  | .test => 2
  | .poll => 4
  | .send => if p.scnt < numIters then 1 else 3
  | .submit => 3
  | .drain => 1
  | .done => 0

/-- A bound on the steps left to the thread. -/
def threadWork (cfg : Bench) (p : Party) : ℕ :=
  (cfg.launches - 1 - p.launch) * (8 * cfg.numIters + 3) +
    4 * (cfg.numIters - p.scnt + (cfg.numIters - p.rcnt)) + p.weight cfg.numIters

/-- A bound on the steps left to the thread and to its NIC. -/
def work (cfg : Bench) (p : Party) : ℕ :=
  p.threadWork cfg + (cfg.total - p.fetched) + (cfg.total - p.landed) + (cfg.total - p.completed)

variable {b : Bool} {p p' : Party}

theorem Ok.sent_le_total (h : p.Ok cfg b) : p.sent cfg.numIters ≤ cfg.total := by
  have hs := h.scnt_le
  have hl : p.launch + 1 ≤ max cfg.launches 1 := by
    have := h.launch
    omega
  have hmul := Nat.mul_le_mul_right cfg.numIters hl
  rw [Nat.succ_mul] at hmul
  unfold sent Bench.total
  omega

end Party

/-! ## A step uses up work -/

/-- A step of the thread without effect is one that waits. -/
theorem Move.work_lt {b : Bool} {p p' : Party} (h : p.Ok cfg b) (hm : Move cfg b p p') :
    p' = p ∧ p.Spins cfg ∨ p'.work cfg < p.work cfg := by
  have ht := h.turn
  have hs := h.scnt_le
  have hahead : b = true ∧ ahead b = 0 ∨ b = false ∧ ahead b = 1 := by cases b <;> decide
  unfold Party.work Party.threadWork Party.weight Party.landed
  cases hm with
  | spin hp => exact .inl ⟨rfl, hp⟩
  | receive hpc hr hs' =>
    simp only [hpc]
    omega
  | skip hpc hw hn =>
    -- a thread that skips the poll has not sent all
    have hlt : p.scnt < cfg.numIters := by
      simp only [Party.Turn, hpc] at ht
      grind
    simp only [hpc, hlt, if_true]
    omega
  | exit hpc hw =>
    simp only [hpc]
    omega
  | pass hpc hb =>
    simp only [hpc]
    split <;> omega
  | store hpc hlt =>
    simp only [hpc, hlt, if_true]
    omega
  | again hpc hge =>
    simp only [hpc, hge, if_false]
    omega
  | submit hpc =>
    simp only [hpc]
    omega
  | drain hpc hc =>
    simp only [hpc]
    omega

/-- The work left to both. -/
def measure (cfg : Bench) (s : Bool → Party) : ℕ := (s false).work cfg + (s true).work cfg

section Steps

variable {s s' : Bool → Party} {b : Bool}

theorem measure_update (cfg : Bench) (s : Bool → Party) (b : Bool) (p : Party) :
    measure cfg (Function.update s b p) + (s b).work cfg = measure cfg s + p.work cfg := by
  unfold measure
  cases b
  · simp only [Function.update_self, Function.update_of_ne (by decide : true ≠ false)]
    omega
  · simp only [Function.update_self, Function.update_of_ne (by decide : false ≠ true)]
    omega

theorem measure_update_lt {p : Party} (h : p.work cfg < (s b).work cfg) :
    measure cfg (Function.update s b p) < measure cfg s := by
  have := measure_update cfg s b p
  omega

theorem Inv.exec_lower (h : Inv cfg s) (b : Bool) :
    Function.update s b ((s b).writeLat cfg b) = s ∧ (s b).Spins cfg ∨
      measure cfg (Function.update s b ((s b).writeLat cfg b)) < measure cfg s := by
  obtain ⟨heq, hsp⟩ | hlt := move_writeLat.work_lt (h.ok b)
  · exact .inl ⟨by rw [heq, Function.update_eq_self], hsp⟩
  · exact .inr (measure_update_lt hlt)

theorem Inv.relaunch_lower (h : Inv cfg s) (hd : (s b).pc = .done)
    (hl : (s b).launch + 1 < cfg.launches) :
    measure cfg (Function.update s b (s b).relaunch) < measure cfg s := by
  have ht := (h.ok b).turn
  simp only [Party.Turn, hd] at ht
  have hsub : cfg.launches - 1 - (s b).launch = cfg.launches - 1 - ((s b).launch + 1) + 1 := by
    omega
  refine measure_update_lt ?_
  unfold Party.work Party.threadWork
  rw [hsub, Nat.succ_mul (cfg.launches - 1 - ((s b).launch + 1))]
  simp only [Party.relaunch, Party.weight, Party.landed, hd]
  omega

theorem Inv.fetch_lower (h : Inv cfg s) (hf : (s b).fetched < (s b).submitted) :
    measure cfg (Function.update s b (s b).fetch) < measure cfg s := by
  have htotal := (h.ok b).sent_le_total
  have hsub := h.submitted_le b
  have hland : (s b).fetch.landed = (s b).landed := by
    simp only [Party.landed, Party.fetch, List.length_append, List.length_singleton]
    omega
  have hthread : (s b).fetch.threadWork cfg = (s b).threadWork cfg := rfl
  refine measure_update_lt ?_
  unfold Party.work
  rw [hland, hthread]
  simp only [Party.fetch]
  omega

theorem Inv.deliver_lower (h : Inv cfg s) {x : BitVec 8} (hx : (s b).flight.head? = some x) :
    measure cfg (Function.update (Function.update s b (s b).deliver) (!b)
      { s (!b) with localPollBuf := x }) < measure cfg s := by
  have htotal := (h.ok b).sent_le_total
  have hsub := h.submitted_le b
  have hw := h.wire b
  have hfl := hw.flight_le
  have hfe := hw.fetched_le
  have hpos : 0 < (s b).flight.length := List.length_pos_iff.2 fun hnil => by
    rw [hnil] at hx
    cases hx
  have hthread : (s b).deliver.threadWork cfg = (s b).threadWork cfg := rfl
  have hfirst : measure cfg (Function.update s b (s b).deliver) < measure cfg s := by
    refine measure_update_lt ?_
    unfold Party.work Party.landed
    rw [hthread]
    simp only [Party.deliver, List.length_tail]
    omega
  have hsecond := measure_update cfg (Function.update s b (s b).deliver) (!b)
    { s (!b) with localPollBuf := x }
  rw [Function.update_of_ne (Bool.not_ne_self b)] at hsecond
  have hsame : ({ s (!b) with localPollBuf := x } : Party).work cfg = (s (!b)).work cfg := rfl
  omega

theorem Inv.complete_lower (h : Inv cfg s) (hc : (s b).completed < (s b).landed) :
    measure cfg (Function.update s b (s b).complete) < measure cfg s := by
  have htotal := (h.ok b).sent_le_total
  have hsub := (h.wire b).landed_le.trans (h.submitted_le b)
  have hthread : (s b).complete.threadWork cfg = (s b).threadWork cfg := rfl
  have hland : (s b).complete.landed = (s b).landed := rfl
  refine measure_update_lt ?_
  unfold Party.work
  rw [hthread, hland]
  simp only [Party.complete]
  omega

/-- **A step without effect waits, and every other brings the end closer.** -/
theorem Inv.lower (h : Inv cfg s) (hs : Step cfg s s') :
    s' = s ∨ measure cfg s' < measure cfg s := by
  cases hs with
  | exec b => exact (h.exec_lower b).imp_left And.left
  | relaunch b hd hl => exact .inr (h.relaunch_lower hd hl)
  | fetch b hf => exact .inr (h.fetch_lower hf)
  | deliver b x hx => exact .inr (h.deliver_lower hx)
  | complete b hc => exact .inr (h.complete_lower hc)

/-! ## Some step has an effect -/

/-- The NIC of `b` has nothing left to do. -/
structure Quiet (s : Bool → Party) (b : Bool) : Prop where
  fetched : (s b).fetched = (s b).submitted
  landed : (s b).landed = (s b).submitted
  completed : (s b).completed = (s b).submitted

theorem Inv.quiet (h : Inv cfg s) (hno : ∀ s', Step cfg s s' → ¬ measure cfg s' < measure cfg s)
    (b : Bool) : Quiet s b := by
  have hw := h.wire b
  have hfetched : (s b).fetched = (s b).submitted := by
    refine le_antisymm hw.fetched_le (Nat.not_lt.1 fun hlt => ?_)
    exact hno _ (.fetch b hlt) (h.fetch_lower hlt)
  have hflight : (s b).flight = [] := by
    cases hfl : (s b).flight with
    | nil => rfl
    | cons x rest =>
      have hx : (s b).flight.head? = some x := by rw [hfl]; rfl
      exact absurd (h.deliver_lower hx) (hno _ (.deliver b x hx))
  have hland : (s b).landed = (s b).submitted := by
    rw [Party.landed, hflight, List.length_nil, Nat.sub_zero, hfetched]
  refine ⟨hfetched, hland, ?_⟩
  rw [← hland]
  refine le_antisymm hw.completed_le (Nat.not_lt.1 fun hlt => ?_)
  exact hno _ (.complete b hlt) (h.complete_lower hlt)

/-- The poll of the CQ ends once every WQE is completed, or all but the last one. -/
theorem pollCq_isSome {n : ℕ} {p : Party} (hn : n ≤ 2 ^ 15) (hpos : 0 < p.completed)
    (hs : 0 < p.submitted) (hle : p.completed ≤ p.submitted)
    (hc : p.submitted ≤ p.completed + 1) : (p.pollCq n).isSome := by
  unfold Party.pollCq
  rw [if_neg hs.ne']
  split
  · rfl
  next hci =>
    have hcqe : p.cqe = ⟨BitVec.ofNat 16 (p.completed - 1), 0#8, 0#8⟩ := if_neg hpos.ne'
    have hvalid : opcode 0#8 ≠ cqeInvalid := by decide
    have hmod := Nat.mod_le (p.completed - (p.submitted - 1)) (2 ^ 16)
    rw [hcqe, collapsedCqe_spec hpos rfl hvalid (Nat.not_lt.1 hci) (by omega), if_pos (by omega)]
    rfl

/-- A thread that has nothing to do waits for a message that is not sent, or has finished. -/
theorem Inv.waits (h : Inv cfg s) (hn : 0 < cfg.numIters)
    (hno : ∀ s', Step cfg s s' → ¬ measure cfg s' < measure cfg s) (b : Bool) :
    (s b).pc = .poll ∧ (s (!b)).submitted < (s b).launch * cfg.numIters + (s b).rcnt ∨
      (s b).Finished cfg.launches := by
  have hok := h.ok b
  have ht := hok.turn
  obtain ⟨-, hsp⟩ | hlt := h.exec_lower b
  · obtain ⟨hpc, hbuf⟩ | ⟨hpc, hdrain⟩ | hpc := hsp
    · refine .inl ⟨hpc, ?_⟩
      have hw := h.wire (!b)
      rw [Bool.not_not] at hw
      simp only [Party.Turn, hpc] at ht
      rw [← (h.quiet hno (!b)).landed]
      -- it is not there, as the byte would be, and the other process is not further
      have hne : (s (!b)).landed ≠ (s b).launch * cfg.numIters + (s b).rcnt := by
        intro heq
        rw [hw.pollBuf, heq, payload_add ht.2 hok.rcnt_le] at hbuf
        exact hbuf rfl
      have hone := ahead_add_not b
      have hpeer := (h.ok (!b)).sent_le
      have hto := (h.wire b).polled_le
      have hback := (h.wire b).landed_le.trans (h.submitted_le b)
      have hland := hw.landed_le.trans (h.submitted_le (!b))
      unfold Party.sent at hback
      omega
    · -- the launch has sent something, and all of it is completed
      have hq := (h.quiet hno b).completed
      have hsub := hok.submitted
      simp only [Party.Turn, Party.sent, hpc, reduceCtorEq, if_false] at ht hsub
      have hsome := pollCq_isSome (p := s b) cfg.cqeNum_le (by omega) (by omega) hq.le (by omega)
      rw [hdrain] at hsome
      cases hsome
    · refine .inr ⟨hpc, Nat.not_lt.1 fun hlt => ?_⟩
      exact hno _ (.relaunch b hpc hlt) (h.relaunch_lower hpc hlt)
  · exact absurd hlt (hno _ (.exec b))

/-- **No state before the end is stuck.** -/
theorem Inv.moves (h : Inv cfg s) (hpos : 0 < cfg.numIters)
    (hn : ¬ ∀ b, (s b).Finished cfg.launches) : ∃ s', Step cfg s s' ∧ s' ≠ s := by
  by_contra hall
  have hno : ∀ s', Step cfg s s' → ¬ measure cfg s' < measure cfg s := by
    intro s' hs hlt
    refine hall ⟨s', hs, ?_⟩
    rintro rfl
    exact Nat.lt_irrefl _ hlt
  obtain ⟨b, hb⟩ := not_forall.1 hn
  obtain ⟨hpc, hlt⟩ := (h.waits hpos hno b).resolve_right hb
  have hok := h.ok b
  have hok' := h.ok (!b)
  have hsub := hok.submitted
  have hsub' := hok'.submitted
  have ht := hok.turn
  have ht' := hok'.turn
  simp only [Party.Turn, Party.sent, hpc, reduceCtorEq, if_false] at ht hsub
  obtain ⟨hpc', hlt'⟩ | ⟨hpc', hl⟩ := h.waits hpos hno (!b)
  · have hone := ahead_add_not b
    rw [Bool.not_not] at hlt'
    simp only [Party.Turn, Party.sent, hpc', reduceCtorEq, if_false] at ht' hsub'
    omega
  · -- the other process has sent all there is
    simp only [Party.Turn, Party.sent, hpc', reduceCtorEq, if_false] at ht' hsub'
    have hle : (s b).launch ≤ (s (!b)).launch := by
      have := hok.launch
      omega
    have hmul := Nat.mul_le_mul_right cfg.numIters hle
    have hr := hok.rcnt_le
    omega

/-- The test settles at the end of the last launches. -/
theorem settles (hpos : 0 < cfg.numIters) (hcfg : cfg.numIters % 256 ≠ 1 ∨ cfg.launches ≤ 1) :
    Settles (Step cfg) (Inv cfg) (fun s => ∀ b, (s b).Finished cfg.launches) (measure cfg) where
  keep := fun _ _ hi hs => hi.step hcfg hs
  lower := fun _ _ hi hs => hi.lower hs
  move := fun _ hi hn => hi.moves hpos hn

/-- What a process has at the end. -/
structure Complete (cfg : Bench) (p : Party) : Prop where
  finished : p.Finished cfg.launches
  sent : p.sent cfg.numIters = cfg.total
  polled : p.polled cfg.numIters = cfg.total
  submitted : p.submitted = cfg.total
  landed : p.landed = cfg.total

theorem Inv.complete_of_finished (h : Inv cfg s) (hf : ∀ b, (s b).Finished cfg.launches)
    (b : Bool) : Complete cfg (s b) := by
  have htotal : ∀ b, (s b).sent cfg.numIters = cfg.total ∧
      (s b).polled cfg.numIters = cfg.total ∧ (s b).submitted = cfg.total := by
    intro b
    have hok := h.ok b
    have ht := hok.turn
    have hsub := hok.submitted
    obtain ⟨hpc, hl⟩ := hf b
    have hle := hok.sent_le_total
    have hlast : max cfg.launches 1 ≤ (s b).launch + 1 := by omega
    have hmul := Nat.mul_le_mul_right cfg.numIters hlast
    simp only [Party.Turn, hpc] at ht
    rw [Nat.succ_mul] at hmul
    simp only [Party.sent, Party.polled, Bench.total, hpc, reduceCtorEq, if_false] at hle hsub ⊢
    omega
  obtain ⟨hs, hp, hsub⟩ := htotal b
  refine ⟨hf b, hs, hp, hsub, ?_⟩
  have hw := h.wire b
  have hto := hw.polled_le
  rw [(htotal (!b)).2.1] at hto
  exact le_antisymm (hw.landed_le.trans_eq hsub) hto

/-- **The test ends.** Whatever the order of the steps, under a scheduler that does not run threads
that wait for ever while something else can happen, both processes come to the end of their last
launches, having sent, submitted, delivered and seen all their messages. Without an iteration the
poll of the CQ would not end. -/
theorem ends (cfg : Bench) (hpos : 0 < cfg.numIters)
    (hcfg : cfg.numIters % 256 ≠ 1 ∨ cfg.launches ≤ 1) (σ : ℕ → Bool → Party) (h₀ : σ 0 = init)
    (hs : ∀ i, Step cfg (σ i) (σ (i + 1))) (hf : Fair (Step cfg) σ) :
    ∃ i, ∀ b, Complete cfg (σ i b) := by
  obtain ⟨i, hi, hfin⟩ := (settles hpos hcfg).eventually (h₀ ▸ inv_init) hs hf
  exact ⟨i, hi.complete_of_finished hfin⟩

/-- One message each way. -/
def oneEachBench : Bench := ⟨1, 1, 4, by decide⟩

/-- A schedule for it. -/
def oneEachNext : ℕ → (Bool → Party) → Bool → Party
  | 3, s => Function.update s false (s false).fetch
  | 4, s => Function.update (Function.update s false (s false).deliver) true
      { s true with localPollBuf := 1 }
  | 9, s => Function.update s true (s true).fetch
  | 10, s => Function.update (Function.update s true (s true).deliver) false
      { s false with localPollBuf := 1 }
  | 15, s => Function.update s false (s false).complete
  | 16, s => Function.update s true (s true).complete
  | 5, s | 6, s | 7, s | 8, s | 18, s | 19, s =>
    Function.update s true ((s true).writeLat oneEachBench true)
  | _, s => Function.update s false ((s false).writeLat oneEachBench false)

/-- The run of this schedule; at the end the server's thread does nothing. -/
def oneEach : ℕ → Bool → Party
  | 0 => init
  | i + 1 => oneEachNext i (oneEach i)

theorem step_oneEach : ∀ i, Step oneEachBench (oneEach i) (oneEach (i + 1))
  | 3 => .fetch false (by decide)
  | 4 => .deliver false 1 (by decide)
  | 9 => .fetch true (by decide)
  | 10 => .deliver true 1 (by decide)
  | 15 => .complete false (by decide)
  | 16 => .complete true (by decide)
  | 5 | 6 | 7 | 8 | 18 | 19 => .exec true
  | 0 | 1 | 2 | 11 | 12 | 13 | 14 | 17 | _ + 20 => .exec false

theorem oneEach_add (i : ℕ) : oneEach (i + 20) = oneEach 20 := by
  induction i with
  | zero => rfl
  | succ i ih =>
    have hsame : (oneEach 20 false).writeLat oneEachBench false = oneEach 20 false := by decide
    show Function.update (oneEach (i + 20)) false
      ((oneEach (i + 20) false).writeLat oneEachBench false) = _
    rw [ih, hsame, Function.update_eq_self]

/-- Both processes come to their end in it. -/
theorem oneEach_ends : ∃ i, ∀ b, Complete oneEachBench (oneEach i b) := by
  refine ends oneEachBench (by decide) (.inr le_rfl) oneEach rfl step_oneEach
    fun i ⟨s', hs, hne⟩ => ?_
  rcases Nat.lt_or_ge i 20 with hlt | hge
  · refine ⟨19, Nat.le_of_lt_succ hlt, fun heq => ?_⟩
    have hpc : (oneEach 20 true).pc ≠ (oneEach 19 true).pc := by decide
    exact hpc (by rw [heq])
  · -- nothing is left to do
    have hrun : ∀ i, Reachable (· = init) (Step oneEachBench) (oneEach i) := fun i => by
      induction i with
      | zero => exact .start rfl
      | succ i ih => exact ih.next (step_oneEach i)
    obtain ⟨k, rfl⟩ := Nat.exists_eq_add_of_le' hge
    have hzero : measure oneEachBench (oneEach 20) = 0 := by decide
    obtain heq | hlt := (reachable_inv (.inr le_rfl) (hrun (k + 20))).lower hs
    · exact absurd heq hne
    · rw [oneEach_add, hzero] at hlt
      exact absurd hlt (Nat.not_lt_zero _)

/-! ## The bytes left over from the launch before -/

/-- More launches allow more steps. -/
theorem Step.mono {launches : ℕ} (hl : launches ≤ cfg.launches)
    (hs : Step { cfg with launches := launches } s s') : Step cfg s s' := by
  cases hs with
  | exec b => exact .exec b
  | relaunch b hd hn => exact .relaunch b hd (hn.trans_le hl)
  | fetch b hf => exact .fetch b hf
  | deliver b x hx => exact .deliver b x hx
  | complete b hc => exact .complete b hc

/-- A client launched again takes the last byte of the launch before for the first one. -/
theorem early {p : Party} (hn : 0 < cfg.numIters) (hb : p.localPollBuf = BitVec.ofNat 8 1) :
    ((p.relaunch.writeLat cfg true).writeLat cfg true).polled cfg.numIters =
      (p.launch + 1) * cfg.numIters + 1 := by
  have hrecv : p.relaunch.writeLat cfg true = { p.relaunch with rcnt := 1, pc := .poll } := by
    simp only [Party.writeLat, Party.relaunch, hn, or_self, or_true, and_self, if_true]
  have hpass : ({ p.relaunch with rcnt := 1, pc := .poll } : Party).writeLat cfg true =
      { p.relaunch with rcnt := 1, pc := .send } := by
    simp only [Party.writeLat, Party.relaunch, hb, if_true]
  rw [hrecv, hpass]
  rfl

theorem not_lockstep (hn : cfg.numIters % 256 = 1) (hl : 1 < cfg.launches) :
    ∃ s, Reachable (· = init) (Step cfg) s ∧ ¬ Lockstep cfg.numIters s := by
  have hpos : 0 < cfg.numIters := Nat.pos_of_ne_zero fun h0 => by rw [h0] at hn; cases hn
  -- both processes come to the end of one launch
  let once : Bench := { cfg with launches := 1 }
  have honce : Settles (Step once) (Inv once) (fun s => ∀ b, (s b).Finished 1) (measure once) :=
    settles hpos (.inr le_rfl)
  obtain ⟨t, hr, hi, hfin⟩ := honce.reaches inv_init
  have hle : Step once ≤ Step cfg := fun _ _ hs => hs.mono hl.le
  have hrun : Reachable (· = init) (Step cfg) t :=
    ⟨init, rfl, Relation.ReflTransGen.mono hle _ _ hr⟩
  have hclient := hi.ok true
  have hlaunch : (t true).launch = 0 := hclient.launch.elim id Nat.lt_one_iff.1
  have hserver : (t false).landed = cfg.numIters :=
    (hi.complete_of_finished hfin false).landed.trans (Nat.one_mul _)
  have hbuf : (t true).localPollBuf = BitVec.ofNat 8 1 := by
    have hpay := payload_add (n := cfg.numIters) (l := 0) hpos le_rfl
    rw [Nat.zero_mul, Nat.zero_add] at hpay
    refine (hi.wire false).pollBuf.trans ?_
    rw [hserver, hpay, ofNat_inj, hn]
  -- the client is launched again and polls
  have h₁ := hrun.next (.relaunch true (hfin true).1 (hlaunch.symm ▸ hl))
  have h₂ := (h₁.next (.exec true)).next (.exec true)
  refine ⟨_, h₂, fun hlock => ?_⟩
  have hseen := hlock.seen true
  simp only [Function.update_self, Function.update_idem, Bool.not_true,
    Function.update_of_ne (by decide : false ≠ true)] at hseen
  rw [early hpos hbuf, hlaunch, hserver] at hseen
  omega

/-- **Lockstep.** In every run the processes take turns, exactly if there is one launch only, or the
number of iterations is not one more than a multiple of 256. -/
theorem lockstep_iff (cfg : Bench) :
    (∀ s, Reachable (· = init) (Step cfg) s → Lockstep cfg.numIters s) ↔
      cfg.numIters % 256 ≠ 1 ∨ cfg.launches ≤ 1 := by
  constructor
  · intro h
    by_contra hc
    obtain ⟨hn, hl⟩ := not_or.1 hc
    obtain ⟨s, hs, hlock⟩ := not_lockstep (not_not.1 hn) (Nat.not_le.1 hl)
    exact hlock (h s hs)
  · exact fun hcfg s hs => (reachable_inv hcfg hs).lockstep

end Steps

end Gpunetio.Lat
