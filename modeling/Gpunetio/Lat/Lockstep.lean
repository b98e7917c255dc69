import Gpunetio.Lat.Model
import Mathlib.Algebra.Order.Group.Nat

/-!
# The latency test runs in lockstep

The messages stored, submitted, read, delivered and polled for by the two processes follow each
other in a circle, so that only one of them is outstanding.

* `payload`: the byte of a message, counted over all launches; `payload_ne`: two in a row differ;
* `Party.Turn`: how far the thread is from what it has polled for;
* `Wire`: what has become of the messages of one process;
* `Inv`, `Inv.exec`, …, **`reachable_inv`**, `Inv.sent_le`: the circle;
* **`lockstep`**: what a poll has seen has been sent, and no byte is used before it has been read.
-/

namespace Gpunetio.Lat

open Transition

/-- The byte of message `m`; zero, as the buffers are set at first, before any message. -/
def payload (numIters m : ℕ) : BitVec 8 :=
  if m = 0 then 0 else BitVec.ofNat 8 ((m - 1) % numIters + 1)

/-- The server stores its first message before it polls. -/
def ahead (isClient : Bool) : ℕ := if isClient then 0 else 1

theorem ahead_add_not (b : Bool) : ahead b + ahead (!b) = 1 := by cases b <;> rfl

theorem ahead_le (b : Bool) : ahead b ≤ 1 := by cases b <;> decide

section Payload

variable {n l k m : ℕ}

theorem payload_add (hk : 1 ≤ k) (hn : k ≤ n) : payload n (l * n + k) = BitVec.ofNat 8 k := by
  have hmod : (l * n + k - 1) % n = k - 1 := by
    rw [Nat.add_sub_assoc hk, Nat.mul_comm, Nat.mul_add_mod, Nat.mod_eq_of_lt (by omega)]
  rw [payload, if_neg (by omega), hmod, Nat.sub_add_cancel hk]

/-- Two bytes are the same if the numbers are the same modulo 256. -/
theorem ofNat_inj : BitVec.ofNat 8 k = BitVec.ofNat 8 m ↔ k % 256 = m % 256 := by
  rw [← BitVec.toNat_inj, BitVec.toNat_ofNat, BitVec.toNat_ofNat]

/-- **Two messages in a row differ**, in one launch or where `numIters` is not one too many for a
byte. -/
theorem payload_ne (hk : 1 ≤ k) (hkn : k ≤ n) (h : n % 256 ≠ 1 ∨ l = 0) :
    payload n (l * n + k - 1) ≠ BitVec.ofNat 8 k := by
  obtain hlt | rfl := hk.lt_or_eq
  · rw [Nat.add_sub_assoc hk, payload_add (by omega) (by omega), Ne, ofNat_inj]
    omega
  · rw [Nat.add_sub_cancel]
    cases l with
    | zero =>
      rw [Nat.zero_mul]
      exact (by decide : (0 : BitVec 8) ≠ BitVec.ofNat 8 1)
    | succ l =>
      have hn : n % 256 ≠ 1 := h.resolve_right (Nat.succ_ne_zero l)
      rw [Nat.succ_mul, payload_add hkn le_rfl, Ne, ofNat_inj]
      omega

end Payload

/-! ## The invariant -/

namespace Party

/-- Where the thread is with its two counts. -/
def Turn (numIters : ℕ) (isClient : Bool) (p : Party) : Prop :=
  match p.pc with
  | .test => p.rcnt ≤ p.scnt ∧ p.scnt ≤ p.rcnt + ahead isClient ∧
      (p.scnt = p.rcnt → ahead isClient = 0 ∨ p.scnt = 0 ∨ p.scnt = numIters)
  | .poll => p.rcnt + ahead isClient = p.scnt + 1 ∧ 1 ≤ p.rcnt
  | .send => p.rcnt + ahead isClient = p.scnt + 1
  | .submit => p.scnt = p.rcnt + ahead isClient ∧ 1 ≤ p.scnt
  | .drain => p.scnt = numIters ∧ p.rcnt = numIters
  | .done => p.scnt = numIters ∧ p.rcnt = numIters

/-- The facts about one process: its counts, its launches and its own buffer. -/
structure Ok (cfg : Bench) (isClient : Bool) (p : Party) : Prop where
  scnt_le : p.scnt ≤ cfg.numIters
  rcnt_le : p.rcnt ≤ cfg.numIters
  turn : p.Turn cfg.numIters isClient
  launch : p.launch = 0 ∨ p.launch < cfg.launches
  postBuf : p.localPostBuf = payload cfg.numIters (p.sent cfg.numIters)
  submitted : p.submitted + (if p.pc = .submit then 1 else 0) = p.sent cfg.numIters

end Party

/-- The messages of `p` on their way to `q`. -/
structure Wire (numIters : ℕ) (p q : Party) : Prop where
  flight_le : p.flight.length ≤ p.fetched
  fetched_le : p.fetched ≤ p.submitted
  completed_le : p.completed ≤ p.landed
  flight : ∀ x ∈ p.flight, x = payload numIters p.fetched
  pollBuf : q.localPollBuf = payload numIters p.landed
  polled_le : q.polled numIters ≤ p.landed

/-- **The invariant.** -/
structure Inv (cfg : Bench) (s : Bool → Party) : Prop where
  ok : ∀ b, (s b).Ok cfg b
  wire : ∀ b, Wire cfg.numIters (s b) (s (!b))

namespace Party

variable {cfg : Bench} {b : Bool} {p : Party}

/-- A thread is at most one message ahead of what it has polled for, and the client is not. -/
theorem Ok.sent_le (h : p.Ok cfg b) :
    p.sent cfg.numIters ≤ p.polled cfg.numIters + ahead b := by
  have ht := h.turn
  have hb := ahead_le b
  unfold Turn at ht
  unfold sent polled
  cases hpc : p.pc <;> simp only [hpc, reduceCtorEq, if_true, if_false] at ht ⊢ <;> omega

/-- Nor is it behind by more than the message polled for. -/
theorem Ok.polled_le (h : p.Ok cfg b) :
    p.polled cfg.numIters + ahead b ≤ p.sent cfg.numIters + 1 := by
  have ht := h.turn
  have hb := ahead_le b
  unfold Turn at ht
  unfold sent polled
  cases hpc : p.pc <;> simp only [hpc, reduceCtorEq, if_true, if_false] at ht ⊢ <;> omega

end Party

/-! ## A step of the thread -/

section Thread

variable {cfg : Bench} {b : Bool} {p : Party}

/-- The thread does nothing: the byte or the CQE it polls for is not there, or it has ended. -/
def Party.Spins (cfg : Bench) (p : Party) : Prop :=
  p.pc = .poll ∧ p.localPollBuf ≠ BitVec.ofNat 8 p.rcnt ∨
    p.pc = .drain ∧ p.pollCq cfg.cqeNum = none ∨ p.pc = .done

/-- What a step of the thread can be. -/
inductive Move (cfg : Bench) (b : Bool) (p : Party) : Party → Prop
  | spin (h : p.Spins cfg) : Move cfg b p p
  | receive (hpc : p.pc = .test) (hr : p.rcnt < cfg.numIters) (hs : 1 ≤ p.scnt ∨ b = true) :
      Move cfg b p { p with rcnt := p.rcnt + 1, pc := .poll }
  | skip (hpc : p.pc = .test) (hw : p.scnt < cfg.numIters ∨ p.rcnt < cfg.numIters)
      (hn : ¬(p.rcnt < cfg.numIters ∧ (1 ≤ p.scnt ∨ b = true))) :
      Move cfg b p { p with pc := .send }
  | exit (hpc : p.pc = .test) (hw : ¬(p.scnt < cfg.numIters ∨ p.rcnt < cfg.numIters)) :
      Move cfg b p { p with pc := .drain }
  | pass (hpc : p.pc = .poll) (hb : p.localPollBuf = BitVec.ofNat 8 p.rcnt) :
      Move cfg b p { p with pc := .send }
  | store (hpc : p.pc = .send) (hs : p.scnt < cfg.numIters) :
      Move cfg b p
        { p with scnt := p.scnt + 1, localPostBuf := BitVec.ofNat 8 (p.scnt + 1), pc := .submit }
  | again (hpc : p.pc = .send) (hs : ¬p.scnt < cfg.numIters) : Move cfg b p { p with pc := .test }
  | submit (hpc : p.pc = .submit) :
      Move cfg b p { p with submitted := p.submitted + 1, pc := .test }
  | drain (hpc : p.pc = .drain) {cqeCi : ℕ} (hc : p.pollCq cfg.cqeNum = some cqeCi) :
      Move cfg b p { p with cqeCi := cqeCi, pc := .done }

theorem move_writeLat : Move cfg b p (p.writeLat cfg b) := by
  unfold Party.writeLat
  cases hpc : p.pc with
  | test =>
    dsimp only
    split
    · rename_i hw
      split
      · rename_i hr
        exact .receive hpc hr.1 hr.2
      · exact .skip hpc hw ‹_›
    · exact .exit hpc ‹_›
  | poll =>
    dsimp only
    split
    · exact .pass hpc ‹_›
    · exact .spin (.inl ⟨hpc, ‹_›⟩)
  | send =>
    dsimp only
    split
    · exact .store hpc ‹_›
    · exact .again hpc ‹_›
  | submit => exact .submit hpc
  | drain =>
    dsimp only
    split
    · exact .drain hpc ‹_›
    · exact .spin (.inr (.inl ⟨hpc, ‹_›⟩))
  | done => exact .spin (.inr (.inr hpc))

variable {p' : Party}

/-- The thread does not touch what its NIC and the other process write. -/
theorem Move.frame (h : Move cfg b p p') :
    p'.launch = p.launch ∧ p'.fetched = p.fetched ∧ p'.flight = p.flight ∧
      p'.completed = p.completed ∧ p'.localPollBuf = p.localPollBuf ∧
      p.submitted ≤ p'.submitted := by
  cases h with
  | submit => exact ⟨rfl, rfl, rfl, rfl, rfl, Nat.le_succ _⟩
  | spin | receive | skip | exit | pass | store | again | drain =>
    exact ⟨rfl, rfl, rfl, rfl, rfl, le_rfl⟩

/-- Only a poll that passes is counted. -/
theorem Move.polled (h : Move cfg b p p') :
    p'.polled cfg.numIters = p.polled cfg.numIters ∨
      p.pc = .poll ∧ p.localPollBuf = BitVec.ofNat 8 p.rcnt ∧
        p'.polled cfg.numIters = p.launch * cfg.numIters + p.rcnt := by
  unfold Party.polled
  cases h with
  | spin => exact .inl rfl
  | pass hpc hb => exact .inr ⟨hpc, hb, rfl⟩
  | receive hpc =>
    refine .inl ?_
    simp only [hpc, reduceCtorEq, if_true, if_false]
    omega
  | skip hpc | exit hpc | store hpc | again hpc | submit hpc | drain hpc =>
    refine .inl ?_
    simp only [hpc, reduceCtorEq, if_false]

/-- The thread keeps its counts and its buffer in step. -/
theorem Party.Ok.move (h : p.Ok cfg b) (hm : Move cfg b p p') : p'.Ok cfg b := by
  obtain ⟨hs, hr, ht, hl, hbuf, hsub⟩ := id h
  have hb := ahead_le b
  have hahead : b = true ∧ ahead b = 0 ∨ b = false ∧ ahead b = 1 := by cases b <;> decide
  cases hm with
  | spin => exact h
  | receive hpc hr' hs' =>
    simp only [Turn, sent, hpc, reduceCtorEq, if_false] at ht hsub
    refine ⟨hs, hr', ?_, hl, hbuf, hsub⟩
    simp only [Turn]
    grind
  | skip hpc hw hn =>
    simp only [Turn, sent, hpc, reduceCtorEq, if_false] at ht hsub
    refine ⟨hs, hr, ?_, hl, hbuf, hsub⟩
    simp only [Turn]
    grind
  | exit hpc hw =>
    simp only [sent, hpc, reduceCtorEq, if_false] at hsub
    refine ⟨hs, hr, ?_, hl, hbuf, hsub⟩
    simp only [Turn]
    omega
  | pass hpc =>
    simp only [Turn, sent, hpc, reduceCtorEq, if_false] at ht hsub
    exact ⟨hs, hr, ht.1, hl, hbuf, hsub⟩
  | store hpc hlt =>
    simp only [Turn, sent, hpc, reduceCtorEq, if_false] at ht hsub
    refine ⟨hlt, hr, ?_, hl, (payload_add (Nat.succ_pos _) hlt).symm, ?_⟩
    · simp only [Turn]
      omega
    · simp only [sent, if_true]
      omega
  | again hpc hge =>
    simp only [Turn, sent, hpc, reduceCtorEq, if_false] at ht hsub
    refine ⟨hs, hr, ?_, hl, hbuf, hsub⟩
    simp only [Turn]
    omega
  | submit hpc =>
    simp only [Turn, sent, hpc, if_true] at ht hsub
    refine ⟨hs, hr, ?_, hl, hbuf, hsub⟩
    simp only [Turn]
    omega
  | drain hpc =>
    simp only [Turn, sent, hpc, reduceCtorEq, if_false] at ht hsub
    exact ⟨hs, hr, ht, hl, hbuf, hsub⟩

end Thread

/-! ## The circle -/

section Steps

variable {cfg : Bench} {s s' : Bool → Party} {b : Bool}

theorem Wire.landed_le {n : ℕ} {p q : Party} (h : Wire n p q) : p.landed ≤ p.submitted :=
  (Nat.sub_le _ _).trans h.fetched_le

theorem Inv.submitted_le (h : Inv cfg s) (b : Bool) :
    (s b).submitted ≤ (s b).sent cfg.numIters := by
  have := (h.ok b).submitted
  omega

/-- **The circle**: a thread has stored at most one message that has not landed. -/
theorem Inv.sent_le (h : Inv cfg s) (b : Bool) :
    (s b).sent cfg.numIters ≤ (s b).landed + 1 := by
  have hown := (h.ok b).sent_le
  have hpeer := (h.ok (!b)).sent_le
  have hto := (h.wire b).polled_le
  have hfrom := (h.wire (!b)).polled_le
  have hback := (h.wire (!b)).landed_le.trans (h.submitted_le (!b))
  have hone := ahead_add_not b
  rw [Bool.not_not] at hfrom
  omega

/-- Only one message is on the way from `b`. -/
theorem Inv.length_flight_le (h : Inv cfg s) (b : Bool) : (s b).flight.length ≤ 1 := by
  have hsent := h.sent_le b
  have hsub := h.submitted_le b
  have hw := h.wire b
  have hfl := hw.flight_le
  have hfe := hw.fetched_le
  unfold Party.landed at hsent
  omega

/-- What the NIC has not read yet is the byte in the buffer. -/
theorem Inv.sent_eq (h : Inv cfg s) (hf : (s b).fetched < (s b).submitted) :
    (s b).sent cfg.numIters = (s b).fetched + 1 ∧ (s b).flight = [] := by
  have hsent := h.sent_le b
  have hsub := h.submitted_le b
  have hfl := (h.wire b).flight_le
  unfold Party.landed at hsent
  refine ⟨by omega, List.length_eq_zero_iff.1 (by omega)⟩

/-- **A poll that passes has seen its message.** -/
theorem Inv.landed_of_poll (h : Inv cfg s) (hcfg : cfg.numIters % 256 ≠ 1 ∨ cfg.launches ≤ 1)
    (hpc : (s b).pc = .poll) (hb : (s b).localPollBuf = BitVec.ofNat 8 (s b).rcnt) :
    (s (!b)).landed = (s b).launch * cfg.numIters + (s b).rcnt := by
  have hok := h.ok b
  have hw := h.wire (!b)
  rw [Bool.not_not] at hw
  have hrcnt : 1 ≤ (s b).rcnt := by
    have ht := hok.turn
    simp only [Party.Turn, hpc] at ht
    exact ht.2
  have hle := hw.polled_le
  have hown := hok.sent_le
  have hcircle := h.sent_le (!b)
  have hpeer := hw.landed_le.trans (h.submitted_le (!b))
  have hother := (h.ok (!b)).sent_le
  have hto := (h.wire b).polled_le
  have hback := (h.wire b).landed_le.trans (h.submitted_le b)
  have hone := ahead_add_not b
  simp only [Party.polled, hpc, if_true] at hle hown
  -- it is that message or the one before, whose byte is another one
  rcases Nat.lt_or_ge (s (!b)).landed ((s b).launch * cfg.numIters + (s b).rcnt) with hlt | hge
  · have heq : (s (!b)).landed = (s b).launch * cfg.numIters + (s b).rcnt - 1 := by omega
    refine absurd ?_ (payload_ne hrcnt hok.rcnt_le (l := (s b).launch) ?_)
    · rw [← heq, ← hw.pollBuf, hb]
    · have := hok.launch
      omega
  · omega

/-! ## Every step keeps it -/

/-- Two processes make a state. -/
theorem Inv.of_pair (b : Bool) (hok : (s b).Ok cfg b) (hok' : (s (!b)).Ok cfg (!b))
    (hw : Wire cfg.numIters (s b) (s (!b))) (hw' : Wire cfg.numIters (s (!b)) (s b)) :
    Inv cfg s := by
  cases b with
  | false => exact ⟨Bool.rec hok hok', Bool.rec hw hw'⟩
  | true => exact ⟨Bool.rec hok' hok, Bool.rec hw' hw⟩

theorem Inv.update (h : Inv cfg s) {p : Party} (hok : p.Ok cfg b)
    (hout : Wire cfg.numIters p (s (!b))) (hin : Wire cfg.numIters (s (!b)) p) :
    Inv cfg (Function.update s b p) := by
  have hne : (!b) ≠ b := Bool.not_ne_self b
  refine .of_pair b ?_ ?_ ?_ ?_
  all_goals simp only [Function.update_self, Function.update_of_ne hne]
  exacts [hok, h.ok (!b), hout, hin]

theorem Inv.exec (h : Inv cfg s) (hcfg : cfg.numIters % 256 ≠ 1 ∨ cfg.launches ≤ 1) (b : Bool) :
    Inv cfg (Function.update s b ((s b).writeLat cfg b)) := by
  have hm : Move cfg b (s b) ((s b).writeLat cfg b) := move_writeLat
  generalize (s b).writeLat cfg b = p at hm
  obtain ⟨-, hfe, hfl, hco, hpb, hsub⟩ := hm.frame
  have hw := h.wire b
  have hw' := h.wire (!b)
  rw [Bool.not_not] at hw'
  have hland : p.landed = (s b).landed := by rw [Party.landed, hfe, hfl, Party.landed]
  refine h.update ((h.ok b).move hm) ?_ ?_
  · exact
      { flight_le := by rw [hfl, hfe]; exact hw.flight_le
        fetched_le := by rw [hfe]; exact hw.fetched_le.trans hsub
        completed_le := by rw [hco, hland]; exact hw.completed_le
        flight := by rw [hfl, hfe]; exact hw.flight
        pollBuf := by rw [hland]; exact hw.pollBuf
        polled_le := by rw [hland]; exact hw.polled_le }
  · refine { hw' with pollBuf := by rw [hpb]; exact hw'.pollBuf, polled_le := ?_ }
    obtain heq | ⟨hpc, hb, heq⟩ := hm.polled
    · rw [heq]
      exact hw'.polled_le
    · rw [heq, h.landed_of_poll hcfg hpc hb]

theorem Inv.relaunch (h : Inv cfg s) (hd : (s b).pc = .done)
    (hl : (s b).launch + 1 < cfg.launches) : Inv cfg (Function.update s b (s b).relaunch) := by
  have hok := h.ok b
  have hw := h.wire b
  have hw' := h.wire (!b)
  rw [Bool.not_not] at hw'
  have ht := hok.turn
  have hsub := hok.submitted
  simp only [Party.Turn, hd] at ht
  have hsent : (s b).relaunch.sent cfg.numIters = (s b).sent cfg.numIters := by
    simp only [Party.sent, Party.relaunch, Nat.succ_mul]
    omega
  have hpolled : (s b).relaunch.polled cfg.numIters = (s b).polled cfg.numIters := by
    simp only [Party.polled, Party.relaunch, Nat.succ_mul, hd, reduceCtorEq, if_false]
    omega
  refine h.update ?_ ?_ ?_
  · refine ⟨Nat.zero_le _, Nat.zero_le _, ?_, .inr hl, ?_, ?_⟩
    · exact ⟨le_rfl, Nat.zero_le _, fun _ => .inr (.inl rfl)⟩
    · rw [hsent]
      exact hok.postBuf
    · rw [hsent, ← hsub, hd]
      rfl
  · exact ⟨hw.flight_le, hw.fetched_le, hw.completed_le, hw.flight, hw.pollBuf, hw.polled_le⟩
  · exact { hw' with pollBuf := hw'.pollBuf, polled_le := by rw [hpolled]; exact hw'.polled_le }

theorem Inv.fetch (h : Inv cfg s) (hf : (s b).fetched < (s b).submitted) :
    Inv cfg (Function.update s b (s b).fetch) := by
  have hok := h.ok b
  have hw := h.wire b
  have hw' := h.wire (!b)
  rw [Bool.not_not] at hw'
  obtain ⟨hsent, hnil⟩ := h.sent_eq hf
  have hland : (s b).fetch.landed = (s b).landed := by
    simp only [Party.landed, Party.fetch, List.length_append, List.length_singleton]
    omega
  refine h.update ?_ ?_ { hw' with pollBuf := hw'.pollBuf, polled_le := hw'.polled_le }
  · exact ⟨hok.scnt_le, hok.rcnt_le, hok.turn, hok.launch, hok.postBuf, hok.submitted⟩
  · refine ⟨?_, hf, ?_, ?_, ?_, ?_⟩
    · simp only [Party.fetch, List.length_append, List.length_singleton]
      exact Nat.succ_le_succ hw.flight_le
    · rw [hland]
      exact hw.completed_le
    · intro x hx
      simp only [Party.fetch, hnil, List.nil_append, List.mem_singleton] at hx
      rw [hx, hok.postBuf, hsent]
      rfl
    · rw [hland]
      exact hw.pollBuf
    · rw [hland]
      exact hw.polled_le

theorem Inv.deliver (h : Inv cfg s) {x : BitVec 8} (hx : (s b).flight.head? = some x) :
    Inv cfg (Function.update (Function.update s b (s b).deliver) (!b)
      { s (!b) with localPollBuf := x }) := by
  have hok := h.ok b
  have hok' := h.ok (!b)
  have hw := h.wire b
  have hw' := h.wire (!b)
  rw [Bool.not_not] at hw'
  have hlen := h.length_flight_le b
  have hmem : x ∈ (s b).flight := List.mem_of_mem_head? hx
  have hland : (s b).deliver.landed = (s b).fetched := by
    simp only [Party.landed, Party.deliver, List.length_tail]
    omega
  have hle : (s b).landed ≤ (s b).fetched := Nat.sub_le _ _
  have hne : b ≠ !b := (Bool.not_ne_self b).symm
  refine .of_pair b ?_ ?_ ?_ ?_
  all_goals simp only [Function.update_self, Function.update_of_ne hne]
  · exact ⟨hok.scnt_le, hok.rcnt_le, hok.turn, hok.launch, hok.postBuf, hok.submitted⟩
  · exact ⟨hok'.scnt_le, hok'.rcnt_le, hok'.turn, hok'.launch, hok'.postBuf, hok'.submitted⟩
  · refine ⟨?_, hw.fetched_le, ?_, ?_, ?_, ?_⟩
    · exact (List.length_tail.trans_le (Nat.sub_le _ _)).trans hw.flight_le
    · rw [hland]
      exact hw.completed_le.trans hle
    · exact fun y hy => hw.flight y (List.mem_of_mem_tail hy)
    · rw [hland]
      exact hw.flight x hmem
    · rw [hland]
      exact hw.polled_le.trans hle
  · exact ⟨hw'.flight_le, hw'.fetched_le, hw'.completed_le, hw'.flight, hw'.pollBuf, hw'.polled_le⟩

theorem Inv.complete (h : Inv cfg s) (hc : (s b).completed < (s b).landed) :
    Inv cfg (Function.update s b (s b).complete) := by
  have hok := h.ok b
  have hw := h.wire b
  have hw' := h.wire (!b)
  rw [Bool.not_not] at hw'
  refine h.update ?_ ?_ { hw' with pollBuf := hw'.pollBuf, polled_le := hw'.polled_le }
  · exact ⟨hok.scnt_le, hok.rcnt_le, hok.turn, hok.launch, hok.postBuf, hok.submitted⟩
  · exact ⟨hw.flight_le, hw.fetched_le, hc, hw.flight, hw.pollBuf, hw.polled_le⟩

/-- **Every step keeps the invariant.** -/
theorem Inv.step (h : Inv cfg s) (hcfg : cfg.numIters % 256 ≠ 1 ∨ cfg.launches ≤ 1)
    (hs : Step cfg s s') : Inv cfg s' := by
  cases hs with
  | exec b => exact h.exec hcfg b
  | relaunch b hd hl => exact h.relaunch hd hl
  | fetch b hf => exact h.fetch hf
  | deliver b x hx => exact h.deliver hx
  | complete b hc => exact h.complete hc

theorem inv_init : Inv cfg init := by
  have hok : ∀ b, (init b).Ok cfg b := fun b => by
    refine ⟨Nat.zero_le _, Nat.zero_le _, ?_, .inl rfl, ?_, ?_⟩
    · exact ⟨le_rfl, Nat.zero_le _, fun _ => .inr (.inl rfl)⟩
    · simp [init, Party.sent, payload]
    · simp [init, Party.sent]
  have hw : ∀ b, Wire cfg.numIters (init b) (init (!b)) := fun b =>
    ⟨le_rfl, le_rfl, le_rfl, by simp [init], by simp [init, Party.landed, payload],
      by simp [init, Party.polled]⟩
  exact ⟨hok, hw⟩

theorem reachable_inv (hcfg : cfg.numIters % 256 ≠ 1 ∨ cfg.launches ≤ 1)
    (h : Reachable (· = init) (Step cfg) s) : Inv cfg s := by
  refine h.invariant ?_ fun _ _ hi hs => hi.step hcfg hs
  rintro _ rfl
  exact inv_init

/-! ## What it means -/

/-- The processes take turns. A poll that has passed has seen a message that has landed; the
messages go back and forth; and a thread about to store a byte finds the one before delivered. -/
structure Lockstep (numIters : ℕ) (s : Bool → Party) : Prop where
  seen : ∀ b, (s b).polled numIters ≤ (s (!b)).landed
  landed : ∀ b, (s b).landed ≤ (s b).sent numIters ∧ (s b).sent numIters ≤ (s b).landed + 1
  turns : (s false).polled numIters ≤ (s true).sent numIters ∧
    (s true).sent numIters ≤ (s true).polled numIters ∧
    (s true).polled numIters ≤ (s false).sent numIters ∧
    (s false).sent numIters ≤ (s false).polled numIters + 1
  reuse : ∀ b, (s b).pc = .send → (s b).landed = (s b).sent numIters

theorem Inv.lockstep (h : Inv cfg s) : Lockstep cfg.numIters s := by
  have hseen : ∀ b, (s b).polled cfg.numIters ≤ (s (!b)).landed := fun b => by
    have hw := (h.wire (!b)).polled_le
    rwa [Bool.not_not] at hw
  have hland : ∀ b, (s b).landed ≤ (s b).sent cfg.numIters := fun b =>
    (h.wire b).landed_le.trans (h.submitted_le b)
  refine ⟨hseen, fun b => ⟨hland b, h.sent_le b⟩, ?_, fun b hpc => ?_⟩
  · have hc := (h.ok true).sent_le
    have hs := (h.ok false).sent_le
    exact ⟨(hseen false).trans (hland true), hc, (hseen true).trans (hland false), hs⟩
  · have ht := (h.ok b).turn
    have hto := hseen (!b)
    have hfrom := hseen b
    have hpeer := (h.ok (!b)).sent_le
    have hback := hland (!b)
    have hone := ahead_add_not b
    have hle := hland b
    have hp : (s b).polled cfg.numIters + ahead b = (s b).sent cfg.numIters + 1 := by
      simp only [Party.Turn, Party.polled, Party.sent, hpc, reduceCtorEq, if_false] at ht ⊢
      omega
    rw [Bool.not_not] at hto
    omega

end Steps

end Gpunetio.Lat
