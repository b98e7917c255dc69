import Gpunetio.Nic.Signal
import Gpunetio.Pair.Order

/-!
# A counter comes after its data

A process that polls the counter of a put finds the data of the put once the counter is raised, and
one that polls the counter of a get finds what was got; although the counter is raised by another QP
than the data is moved by. It takes that no other WQE writes to the ranges or the counter.

* `CoreDirectNic`: a NIC that does nothing else for a WAIT than to hold it;
* `Agrees`: two memories agree on the ranges of a transfer; `agrees_put`, `agrees_get`: a transfer
  sees nothing else;
* `NicPair.segment_main`, `NicPair.segment_comp`: what can be seen of one reservation;
* **`NicPair.counter_after_data`**.
-/

namespace Gpunetio

open Transition Relation Chunking AddrSpace

/-- A NIC as documented that holds WAITs. -/
structure CoreDirectNic (effect : Wqe → RdmaMem → RdmaMem) : Prop extends RdmaNic effect where
  wait : ∀ w m, opcodeOf w = some opcodeWait → effect w m = m

theorem coreDirectNic_rdmaExec : CoreDirectNic rdmaExec where
  toRdmaNic := rdmaNic_rdmaExec
  wait := by
    intro w m hop
    unfold rdmaExec
    split
    · rename_i f hf
      rw [opcodeOf_of_fetchAddOf hf] at hop
      exact absurd hop (by decide)
    · rename_i t _ ht
      rw [(opcodeOf_of_transferOf ht).1, Option.some.injEq] at hop
      rw [hop, if_neg (by decide), if_neg (by decide)]
    · rfl

/-- The counter of a call. -/
def CounterCall.counter {cfg : PairConfig} (call : CounterCall cfg) : SignalArgs :=
  ⟨call.args.counterRaddr, call.args.counterLaddr, call.args.counterVal⟩

/-- The local bytes are those of the remote range before. -/
def Chunking.ChunkArgs.Got (args : ChunkArgs) (m₀ m : RdmaMem) : Prop :=
  ∀ i < args.size.toNat, m.loc args.laddr.key (args.laddr.addr + BitVec.ofNat 64 i) =
    m₀.rem args.raddr.key (args.raddr.addr + BitVec.ofNat 64 i)

/-- The memories agree on both ranges of a transfer. -/
def Agrees (args : ChunkArgs) (m m' : RdmaMem) : Prop :=
  Same m.rem m'.rem args.raddr.key args.dest ∧ Same m.loc m'.loc args.laddr.key args.source

section Agrees

variable {args : ChunkArgs} {effect : Wqe → RdmaMem → RdmaMem} {m m' m'' : RdmaMem} {p : ℕ × ℕ}

theorem Agrees.refl : Agrees args m m := ⟨.refl, .refl⟩

theorem Agrees.trans (h : Agrees args m m') (h' : Agrees args m' m'') : Agrees args m m'' :=
  ⟨h.1.trans h'.1, h.2.trans h'.2⟩

/-- A piece of a range is within it. -/
theorem same_piece {μ μ' : AddrSpace (BitVec 32) 64} {k : BitVec 32} {a : BitVec 64} {n : ℕ}
    (h : Same μ μ' k ⟨a, n⟩) (hin : p.1 + p.2 ≤ n) :
    Same μ μ' k ⟨a + BitVec.ofNat 64 p.1, p.2⟩ := by
  rintro b ⟨i, hi, rfl⟩
  exact h _ (Region.within_of_le hin i hi)

/-- What a put writes depends on what it reads only. -/
theorem agrees_put (hnic : RdmaNic effect) {qp : QpConst} {base : ℕ} {w : Wqe}
    (hw : w ∈ putWqes qp args.raddr args.laddr args.size base) (h : Agrees args m m') :
    Agrees args (effect w m) (effect w m') := by
  obtain hid | ⟨p, hin, hwrite⟩ := effect_putWqe hnic hw
  · rw [hid m, hid m']
    exact h
  · have hle : p.2 ≤ 2 ^ 64 := by
      have := args.size.isLt
      omega
    rw [hwrite m, hwrite m']
    exact ⟨.blit_into hle (same_piece h.2 hin) h.1, h.2⟩

/-- What a get writes depends on what it reads only. -/
theorem agrees_get (hnic : RdmaNic effect) {qp : QpConst} {base : ℕ} {w : Wqe}
    (hw : w ∈ getWqes qp args.raddr args.laddr args.size base) (h : Agrees args m m') :
    Agrees args (effect w m) (effect w m') := by
  obtain hid | ⟨p, hin, hread⟩ := effect_getWqe hnic hw
  · rw [hid m, hid m']
    exact h
  · have hle : p.2 ≤ 2 ^ 64 := by
      have := args.size.isLt
      omega
    rw [hread m, hread m']
    exact ⟨h.1, .blit_into hle (same_piece h.1 hin) h.2⟩

end Agrees

namespace NicPair

variable {A M : Type*} [DecidableEq A] {cfg : PairConfig} {env : HostEnv}
  {calls : Set (CounterCall cfg)} {rc : Rsv A cfg.comp}
  {rm : Rsv A cfg.main} {call : CounterCall cfg}

section Segment

variable {s : NicPair A cfg M} {effect : Wqe → M → M} {m₀ : M} {R : M → M → Prop}

/-- The memory as far as a relation sees it that is kept by all WQEs but those of a reservation on
the main QP. -/
theorem segment_main (h : Reachable (Init env m₀ calls) (Step effect) s)
    (hr : rm ∈ s.pair.main.rsvs)
    (h₀ : R m₀ m₀) (hown : ∀ w ∈ rm.wqes, ∀ m m', R m m' → R (effect w m) (effect w m'))
    (hmain : ∀ r ∈ s.pair.main.rsvs, r ≠ rm → ∀ w ∈ r.wqes, ∀ m m', R m m' → R (effect w m) m')
    (hcomp : ∀ r ∈ s.pair.comp.rsvs, ∀ w ∈ r.wqes, ∀ m m', R m m' → R (effect w m) m') :
    R s.mem (replay effect (rm.wqes.take (s.onMain.executed - rm.base)) m₀) := by
  obtain ⟨pre, post, hlog, hlen, hothers⟩ := (onMain_inv h).qp.log_split hr
  rw [← hlen]
  refine Interleave.segment (reachable_interleave h) (k := Side.main) h₀ hlog hown
    (fun w hw => ?_) fun j hj w hw => ?_
  · obtain ⟨r, hr', hne, hmem⟩ := hothers w hw
    exact hmain r hr' hne w hmem
  · cases j with
    | main => exact absurd rfl hj
    | comp =>
      obtain ⟨r, hr', hmem⟩ := List.mem_flatMap.1 hw
      exact hcomp r (List.mem_reverse.1 hr') w hmem

/-- The memory as far as a relation sees it that is kept by all WQEs but those of a reservation on
the companion QP. -/
theorem segment_comp (h : Reachable (Init env m₀ calls) (Step effect) s)
    (hr : rc ∈ s.pair.comp.rsvs)
    (h₀ : R m₀ m₀) (hown : ∀ w ∈ rc.wqes, ∀ m m', R m m' → R (effect w m) (effect w m'))
    (hcomp : ∀ r ∈ s.pair.comp.rsvs, r ≠ rc → ∀ w ∈ r.wqes, ∀ m m', R m m' → R (effect w m) m')
    (hmain : ∀ r ∈ s.pair.main.rsvs, ∀ w ∈ r.wqes, ∀ m m', R m m' → R (effect w m) m') :
    R s.mem (replay effect (rc.wqes.take (s.onComp.executed - rc.base)) m₀) := by
  obtain ⟨pre, post, hlog, hlen, hothers⟩ := (onComp_inv h).qp.log_split hr
  rw [← hlen]
  refine Interleave.segment (reachable_interleave h) (k := Side.comp) h₀ hlog hown
    (fun w hw => ?_) fun j hj w hw => ?_
  · obtain ⟨r, hr', hne, hmem⟩ := hothers w hw
    exact hcomp r hr' hne w hmem
  · cases j with
    | comp => exact absurd rfl hj
    | main =>
      obtain ⟨r, hr', hmem⟩ := List.mem_flatMap.1 hw
      exact hmain r (List.mem_reverse.1 hr') w hmem

end Segment

variable {s : NicPair A cfg RdmaMem} {effect : Wqe → RdmaMem → RdmaMem} {m₀ : RdmaMem}
  {args : ChunkArgs}

/-- The put or the get that a call is for. -/
def Moves (call : CounterCall cfg) (args : ChunkArgs) : Prop :=
  call.op = .putCounter args.raddr args.laddr args.size ∨
    call.op = .getCounter args.raddr args.laddr args.size

/-- The counter and the word that its old value goes to are outside the ranges, and no other WQE
writes to the ranges or the counter. -/
structure Alone (effect : Wqe → RdmaMem → RdmaMem) (s : NicPair A cfg RdmaMem)
    (rc : Rsv A cfg.comp) (rm : Rsv A cfg.main) (call : CounterCall cfg) (args : ChunkArgs) :
    Prop where
  counter : call.args.counterRaddr.key = args.raddr.key → args.dest.Apart call.counter.counter
  result : call.args.counterLaddr.key = args.laddr.key →
    args.source.Apart ⟨call.args.counterLaddr.addr, 8⟩
  main : ∀ r ∈ s.pair.main.rsvs, r ≠ rm → ∀ w ∈ r.wqes,
    SparesData effect args w ∧ SparesCounter effect call.counter w
  comp : ∀ r ∈ s.pair.comp.rsvs, r ≠ rc → ∀ w ∈ r.wqes,
    SparesData effect args w ∧ SparesCounter effect call.counter w

theorem effect_wait (hnic : CoreDirectNic effect) (qp : QpConst) (idx base : ℕ)
    (cqNum : BitVec 32) (m : RdmaMem) :
    effect (wqePrepareWait qp idx ctrlCqUpdate base cqNum) m = m :=
  hnic.wait _ m (opcodeOf_ctrl (by decide))

/-- The fetch-and-add of a call raises its counter. -/
theorem effect_counter (hnic : RdmaNic effect) (call : CounterCall cfg) (idx : ℕ) (m : RdmaMem) :
    effect (faWqe cfg.compQp idx call.args.counterRaddr call.args.counterLaddr
      call.args.counterVal) m = call.counter.signal m :=
  hnic.fetchAdd _ _ m (fetchAddOf_faWqe _ _ _ _)

omit [DecidableEq A] in
/-- The WQEs on the main QP leave the counter alone. -/
theorem sparesCounter_main (hnic : RdmaNic effect) (hmove : Moves call args)
    (ha : Alone effect s rc rm call args) {base : ℕ} {w : Wqe}
    (hw : w ∈ call.op.mainWqes cfg.mainQp base) : SparesCounter effect call.counter w := by
  obtain hop | hop := hmove <;> rw [hop] at hw
  · exact sparesCounter_of_put hnic ha.counter hw
  · intro m
    have hget : w ∈ getWqes cfg.mainQp args.raddr args.laddr args.size base := hw
    obtain hid | ⟨p, -, hread⟩ := effect_getWqe hnic hget
    · rw [hid m]
      exact .refl
    · rw [hread m]
      exact .refl

/-- **The counter** is raised by the fetch-and-add and by nothing else. -/
theorem value_eq (hnic : CoreDirectNic effect) (h : Reachable (Init env m₀ calls) (Step effect) s)
    (hrc : rc ∈ s.pair.comp.rsvs) (hmade : s.pair.Made rc rm call) (hmove : Moves call args)
    (ha : Alone effect s rc rm call args) :
    call.counter.value s.mem =
      if rc.last < s.onComp.executed then call.counter.value m₀ + call.args.counterVal
      else call.counter.value m₀ := by
  have hwait := effect_wait hnic cfg.compQp rc.base (call.op.lastWqeIdx rm.base) cfg.mainQp.cqNum
  have hfa := effect_counter hnic.toRdmaNic call (rc.base + 1)
  have hseg := segment_comp (R := fun m m' => call.counter.value m = call.counter.value m') h hrc
    rfl (fun w hw m m' hR => ?_) (fun r hr hne w hw m m' hR => ?_) fun r hr w hw m m' hR => ?_
  · have hlast : rc.last = rc.base + 1 := by rw [Rsv.last, hmade.comp]; rfl
    rw [hseg, hmade.comp, CounterOp.companionWqes]
    split
    · rename_i hlt
      rw [List.take_of_length_le (by simp only [List.length_cons, List.length_nil]; omega),
        replay_cons, hwait, replay_cons, hfa]
      exact value_signal
    · rename_i hge
      obtain hzero | hone : s.onComp.executed - rc.base = 0 ∨ s.onComp.executed - rc.base = 1 := by
        omega
      · rw [hzero]
        rfl
      · rw [hone, List.take_succ_cons, List.take_zero, replay_cons, hwait]
        rfl
  · rw [hmade.comp] at hw
    obtain rfl | hw := List.mem_cons.1 hw
    · rw [hwait, hwait]
      exact hR
    · obtain rfl := List.mem_singleton.1 hw
      rw [hfa, hfa]
      exact value_signal.trans ((congrArg (· + call.args.counterVal) hR).trans value_signal.symm)
  · exact ((ha.comp r hr hne w hw).2 m).word.trans hR
  · by_cases heq : r = rm
    · subst heq
      rw [hmade.main] at hw
      exact (sparesCounter_main hnic.toRdmaNic hmove ha hw m).word.trans hR
    · exact ((ha.main r hr heq w hw).2 m).word.trans hR

/-- **The data** is there once the WQEs on the main QP have been executed. -/
theorem agrees_of_executed (hnic : CoreDirectNic effect)
    (h : Reachable (Init env m₀ calls) (Step effect) s) (hmade : s.pair.Made rc rm call)
    (hmove : Moves call args) (ha : Alone effect s rc rm call args)
    (hx : rm.stop ≤ s.onMain.executed) :
    Agrees args s.mem (replay effect (call.op.mainWqes cfg.mainQp rm.base) m₀) := by
  have hwait := effect_wait hnic cfg.compQp rc.base (call.op.lastWqeIdx rm.base) cfg.mainQp.cqNum
  have hfa := effect_counter hnic.toRdmaNic call (rc.base + 1)
  have hseg := segment_main (R := Agrees args) h hmade.mem .refl (fun w hw m m' hR => ?_)
    (fun r hr hne w hw m m' hR => Agrees.trans ((ha.main r hr hne w hw).1 m) hR)
    fun r hr w hw m m' hR => ?_
  · rwa [List.take_of_length_le (by simp only [Rsv.stop] at hx; omega), hmade.main] at hseg
  · rw [hmade.main] at hw
    obtain hop | hop := hmove <;> rw [hop] at hw
    · exact agrees_put hnic.toRdmaNic hw hR
    · exact agrees_get hnic.toRdmaNic hw hR
  · by_cases heq : r = rc
    · subst heq
      rw [hmade.comp] at hw
      obtain rfl | hw := List.mem_cons.1 hw
      · rw [hwait]
        exact hR
      · obtain rfl := List.mem_singleton.1 hw
        rw [hfa]
        exact .trans ⟨same_setWord_of_apart fun hk => (ha.counter hk.symm).symm,
          same_setWord_of_apart fun hk => (ha.result hk.symm).symm⟩ hR
    · exact .trans ((ha.comp r hr heq w hw).1 m) hR

/-- **A counter comes after its data.** In every reachable state each reservation on the companion
QP has been made for an operation; and if that is a put or a get whose ranges and counter no other
WQE writes to, then either the counter is as at first, or it is raised, and all the data of the put
is at the other side, or all the data of the get is here. -/
theorem counter_after_data (hnic : CoreDirectNic effect)
    (h : Reachable (Init env m₀ calls) (Step effect) s) (hrc : rc ∈ s.pair.comp.rsvs) :
    ∃ rm, ∃ call ∈ calls, s.pair.Made rc rm call ∧ ∀ args : ChunkArgs, Moves call args →
      Alone effect s rc rm call args →
      s.onComp.executed ≤ rc.last ∧ call.counter.value s.mem = call.counter.value m₀ ∨
        rc.last < s.onComp.executed ∧
          call.counter.value s.mem = call.counter.value m₀ + call.args.counterVal ∧
          (call.op = .putCounter args.raddr args.laddr args.size → args.Arrived m₀ s.mem) ∧
          (call.op = .getCounter args.raddr args.laddr args.size → args.Got m₀ s.mem) := by
  obtain ⟨rm, call, hin, hmade, hserved⟩ := (reachable_inv h).served rc hrc
  refine ⟨rm, call, hin, hmade, fun args hmove ha => ?_⟩
  have hval := value_eq hnic h hrc hmade hmove ha
  rcases Nat.lt_or_ge rc.last s.onComp.executed with hlt | hge
  · rw [if_pos hlt] at hval
    have hbase : rc.base < s.onComp.executed := by
      have := rc.last_add_one
      have := rc.lt_stop
      omega
    have hx : rm.stop ≤ s.onMain.executed := by
      rw [← rm.last_add_one]
      exact (hserved hbase).trans_le (onMain_inv h).produced_le
    have hagree := agrees_of_executed hnic h hmade hmove ha hx
    refine .inr ⟨hlt, hval, fun hop => ?_, fun hop => ?_⟩ <;> rw [hop] at hagree
    · rw [CounterOp.mainWqes, replay_putWqes hnic.toRdmaNic] at hagree
      exact (arrived_put .refl).same hagree.1
    · rw [CounterOp.mainWqes, replay_getWqes hnic.toRdmaNic] at hagree
      exact fun i hi => (hagree.2 _ ⟨i, hi, rfl⟩).trans (blit_apply args.size.isLt.le hi)
  · rw [if_neg (Nat.not_lt.2 hge)] at hval
    exact .inl ⟨hge, hval⟩

/-- The counter of the put of a byte is one, and the byte is there. -/
theorem countedPut_delivers : ∃ s : NicPair Unit Pair.fourFour RdmaMem,
    countedPut.counter.value s.mem = countedPut.counter.value NicQp.someBytes + 1#64 ∧
      NicQp.oneByte.Arrived NicQp.someBytes s.mem := by
  obtain ⟨s, h, hmain, hcomp, hx⟩ := fresh_run rdmaExec NicQp.someBytes
  obtain ⟨rm, call, rfl, hmade, hdata⟩ :=
    counter_after_data coreDirectNic_rdmaExec h (hcomp ▸ List.mem_cons_self)
  obtain rfl := List.mem_singleton.1 (hmain ▸ hmade.mem)
  have hapart : NicQp.oneByte.dest.Apart countedPut.counter.counter := by
    unfold Region.Apart
    decide
  have hresult : NicQp.oneByte.source.Apart ⟨countedPut.args.counterLaddr.addr, 8⟩ := by
    unfold Region.Apart
    decide
  have halone : Alone rdmaExec s (countedPut.compRsv () 0 0) (countedPut.mainRsv () 0) countedPut
      NicQp.oneByte := by
    refine ⟨fun _ => hapart, fun _ => hresult, fun r hr hne => ?_, fun r hr hne => ?_⟩
    · exact (hne (List.mem_singleton.1 (hmain ▸ hr))).elim
    · exact (hne (List.mem_singleton.1 (hcomp ▸ hr))).elim
  obtain ⟨hle, -⟩ | ⟨-, hval, hput, -⟩ := hdata NicQp.oneByte (.inl rfl) halone
  · rw [hx] at hle
    exact absurd hle (by decide)
  · exact ⟨s, hval, hput rfl⟩

end NicPair

end Gpunetio
