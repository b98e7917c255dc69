import Gpunetio.Nic.Memory
import Gpunetio.Nic.Replay

/-!
# A signal comes after its data

A put with a signal on a QP that any number of threads post on. As long as the other WQEs leave the
ranges of the put and the counter alone, a process that sees the counter raised finds the data; and
a thread that has waited for the ticket of a put finds it, too.

* `SparesData`, `SparesCounter`: what a WQE leaves alone;
* `effect_putWqe`, `effect_getWqe`: each WQE is a NOP or moves a piece; `sparesCounter_of_put`;
* **`signal_after_data`**, **`put_then_wait`**.
-/

namespace Gpunetio

open Transition Relation Chunking AddrSpace Tiling

namespace Chunking

/-- The range a put writes to. -/
def ChunkArgs.dest (args : ChunkArgs) : Region 64 := ⟨args.raddr.addr, args.size.toNat⟩

/-- The range a put reads from. -/
def ChunkArgs.source (args : ChunkArgs) : Region 64 := ⟨args.laddr.addr, args.size.toNat⟩

/-- The counter of a signal. -/
def SignalArgs.counter (sig : SignalArgs) : Region 64 := ⟨sig.sigRaddr.addr, 8⟩

/-- The word at the counter. -/
def SignalArgs.value (sig : SignalArgs) (m : RdmaMem) : BitVec 64 :=
  m.rem.word sig.sigRaddr.key sig.sigRaddr.addr

/-- The bytes of the remote range are those of the local range before. -/
def ChunkArgs.Arrived (args : ChunkArgs) (m₀ m : RdmaMem) : Prop :=
  ∀ i < args.size.toNat, m.rem args.raddr.key (args.raddr.addr + BitVec.ofNat 64 i) =
    m₀.loc args.laddr.key (args.laddr.addr + BitVec.ofNat 64 i)

end Chunking

/-- A WQE that neither writes to the remote range of a put nor to its local range. -/
def SparesData (effect : Wqe → RdmaMem → RdmaMem) (args : ChunkArgs) (w : Wqe) : Prop :=
  ∀ m, Same (effect w m).rem m.rem args.raddr.key args.dest ∧
    Same (effect w m).loc m.loc args.laddr.key args.source

/-- A WQE that does not write to the counter. -/
def SparesCounter (effect : Wqe → RdmaMem → RdmaMem) (sig : SignalArgs) (w : Wqe) : Prop :=
  ∀ m, Same (effect w m).rem m.rem sig.sigRaddr.key sig.counter

section Frame

variable {effect : Wqe → RdmaMem → RdmaMem} {args : ChunkArgs} {sig : SignalArgs} {l : List Wqe}
  {m m₀ : RdmaMem}

theorem replay_sparesData (h : ∀ w ∈ l, SparesData effect args w) (m : RdmaMem) :
    Same (replay effect l m).rem m.rem args.raddr.key args.dest ∧
      Same (replay effect l m).loc m.loc args.laddr.key args.source := by
  refine replay_invariant (P := fun m' : RdmaMem => Same m'.rem m.rem _ _ ∧ Same m'.loc m.loc _ _)
    ⟨.refl, .refl⟩ fun w hw m' hm' => ?_
  obtain ⟨hrem, hloc⟩ := h w hw m'
  exact ⟨hrem.trans hm'.1, hloc.trans hm'.2⟩

theorem replay_sparesCounter (h : ∀ w ∈ l, SparesCounter effect sig w) (m : RdmaMem) :
    sig.value (replay effect l m) = sig.value m := by
  have hsame : Same (replay effect l m).rem m.rem sig.sigRaddr.key sig.counter :=
    replay_invariant (P := fun m' : RdmaMem => Same m'.rem m.rem _ _) .refl
      fun w hw m' hm' => (h w hw m').trans hm'
  exact hsame.word

/-- What has arrived stays if nothing is written there. -/
theorem Chunking.ChunkArgs.Arrived.same {m' : RdmaMem} (h : args.Arrived m₀ m)
    (hs : Same m'.rem m.rem args.raddr.key args.dest) : args.Arrived m₀ m' :=
  fun i hi => (hs _ ⟨i, hi, rfl⟩).trans (h i hi)

/-- A put of the bytes that were there at first. -/
theorem arrived_put (hs : Same m.loc m₀.loc args.laddr.key args.source) :
    args.Arrived m₀ (args.put m) := by
  intro i hi
  exact (blit_apply args.size.isLt.le hi).trans (hs _ ⟨i, hi, rfl⟩)

/-- A put leaves a counter alone that is not in its range. -/
theorem value_put (ha : sig.sigRaddr.key = args.raddr.key → args.dest.Apart sig.counter) :
    sig.value (args.put m) = sig.value m :=
  (same_blit_of_apart ha : Same (args.put m).rem m.rem sig.sigRaddr.key sig.counter).word

/-- A signal raises its counter. -/
theorem value_signal : sig.value (sig.signal m) = sig.value m + sig.sigVal :=
  word_setWord (by decide) _ _

theorem arrived_signal (ha : sig.sigRaddr.key = args.raddr.key → args.dest.Apart sig.counter)
    (h : args.Arrived m₀ m) : args.Arrived m₀ (sig.signal m) :=
  h.same (same_setWord_of_apart fun hk => (ha hk.symm).symm)

/-- A part of a range is apart from what the range is apart from. -/
theorem apart_part {a : BitVec 64} {o n n' : ℕ} {r : Region 64} (h : Region.Apart ⟨a, n'⟩ r)
    (hle : o + n ≤ n') : Region.Apart ⟨a + BitVec.ofNat 64 o, n⟩ r := by
  intro i hi j hj heq
  obtain ⟨k, hk, hval⟩ := Region.within_of_le (a := a) hle i hi
  exact h k hk j hj (hval.symm.trans heq)

/-- A WQE of a transfer is a NOP, or it transfers a piece of the range. -/
theorem chunk_cases (hnic : RdmaNic effect) {prepare : BitVec 64 → ℕ → BitVec 32 → Wqe}
    {opcode : BitVec 32} {qp : QpConst} {base : BitVec 64} {w : Wqe}
    (hp : ∀ wqeIdx i bytes, bytes ≤ maxTransferSize →
      transferOf (prepare wqeIdx i (BitVec.ofNat 32 bytes)) =
        some (pieceTransfer opcode args (i * maxTransferSize, bytes)))
    (hw : w ∈ (chunkLoop qp prepare base args.size (chunksOf args.size.toNat)).written.map
      Prod.snd) :
    (∀ m, effect w m = m) ∨ ∃ p : ℕ × ℕ, transferOf w = some (pieceTransfer opcode args p) ∧
      0 < p.2 ∧ p.2 ≤ 2 ^ 31 ∧ p.1 + p.2 ≤ args.size.toNat := by
  rw [chunkLoop_written, List.map_map] at hw
  obtain ⟨i, -, rfl⟩ := List.mem_map.1 hw
  rw [Function.comp_apply]
  by_cases hpos : 0 < (piece maxTransferSize args.size.toNat i).2
  · have hle : (piece maxTransferSize args.size.toNat i).2 ≤ maxTransferSize := Nat.min_le_left _ _
    have hin : (piece maxTransferSize args.size.toNat i).1 +
        (piece maxTransferSize args.size.toNat i).2 ≤ args.size.toNat := by
      simp only [piece] at hpos ⊢
      omega
    exact .inr ⟨_, transferOf_chunkWqe hp hpos hle, hpos, hle.trans (by decide), hin⟩
  · refine .inl fun m => ?_
    rw [chunkWqe]
    dsimp only
    rw [if_neg hpos, hnic.nop _ m (opcodeOf_nop _)]

/-- What a WQE of a put does. -/
theorem effect_putWqe (hnic : RdmaNic effect) {qp : QpConst} {base : ℕ} {w : Wqe}
    (hw : w ∈ putWqes qp args.raddr args.laddr args.size base) :
    (∀ m, effect w m = m) ∨ ∃ p : ℕ × ℕ, p.1 + p.2 ≤ args.size.toNat ∧
      ∀ m, effect w m = (pieceTransfer opcodeRdmaWrite args p).write m := by
  have hprep : ∀ (wqeIdx : BitVec 64) i bytes, bytes ≤ maxTransferSize →
      transferOf (prepareWrite qp args.raddr args.laddr wqeIdx i (BitVec.ofNat 32 bytes)) =
        some (pieceTransfer opcodeRdmaWrite args (i * maxTransferSize, bytes)) :=
    fun wqeIdx i _ => transferOf_prepareWrite args wqeIdx i
  unfold putWqes at hw
  rw [numChunks_eq] at hw
  refine (chunk_cases hnic hprep ((putLoop_wqes args base _).symm ▸ hw)).imp_right ?_
  rintro ⟨p, ht, hpos, hle, hin⟩
  exact ⟨p, hin, fun m => hnic.write w _ m ht rfl hpos hle⟩

/-- What a WQE of a get does. -/
theorem effect_getWqe (hnic : RdmaNic effect) {qp : QpConst} {base : ℕ} {w : Wqe}
    (hw : w ∈ getWqes qp args.raddr args.laddr args.size base) :
    (∀ m, effect w m = m) ∨ ∃ p : ℕ × ℕ, p.1 + p.2 ≤ args.size.toNat ∧
      ∀ m, effect w m = (pieceTransfer opcodeRdmaRead args p).read m := by
  have hprep : ∀ (wqeIdx : BitVec 64) i bytes, bytes ≤ maxTransferSize →
      transferOf (prepareRead qp args.raddr args.laddr wqeIdx i (BitVec.ofNat 32 bytes)) =
        some (pieceTransfer opcodeRdmaRead args (i * maxTransferSize, bytes)) :=
    fun wqeIdx i _ => transferOf_prepareRead args wqeIdx i
  unfold getWqes at hw
  rw [numChunks_eq] at hw
  refine (chunk_cases hnic hprep ((getLoop_wqes args base _).symm ▸ hw)).imp_right ?_
  rintro ⟨p, ht, hpos, hle, hin⟩
  exact ⟨p, hin, fun m => hnic.read w _ m ht rfl hpos hle⟩

/-- **The writes of a put leave the counter alone**, each of them. -/
theorem sparesCounter_of_put (hnic : RdmaNic effect) {qp : QpConst} {base : ℕ} {w : Wqe}
    (ha : sig.sigRaddr.key = args.raddr.key → args.dest.Apart sig.counter)
    (hw : w ∈ putWqes qp args.raddr args.laddr args.size base) : SparesCounter effect sig w := by
  intro m
  obtain hid | ⟨p, hin, hwrite⟩ := effect_putWqe hnic hw
  · rw [hid m]
    exact .refl
  · rw [hwrite m]
    exact same_blit_of_apart fun hk => apart_part (ha hk) hin

end Frame

namespace NicQp

variable {A : Type*} [DecidableEq A] {cfg : QpConfig} {s s' : NicQp A cfg RdmaMem}
  {effect : Wqe → RdmaMem → RdmaMem} {m₀ : RdmaMem} {env : HostEnv} {r : Rsv A cfg}
  {args : ChunkArgs} {sig : SignalArgs} {qp : QpConst}

/-- Once the writes of a put have been executed the data is there. -/
theorem arrived_of_executed (hnic : RdmaNic effect)
    (h : Reachable (Init env m₀) (Step effect) s) (hr : r ∈ s.qp.rsvs)
    (hw : r.wqes = ChunkedOp.putThread.planWqes args qp r.base)
    (hsize : chunksOf args.size.toNat < 2 ^ 32)
    (hothers : ∀ r' ∈ s.qp.rsvs, r' ≠ r → ∀ w ∈ r'.wqes, SparesData effect args w)
    (hlast : r.last < s.executed) : args.Arrived m₀ s.mem := by
  obtain ⟨pre, post, hmem, hfrom⟩ := mem_of_last_lt h hr hlast
  have hspare : ∀ w ∈ pre ++ post, SparesData effect args w := fun w hwm => by
    obtain ⟨r', hr', hne, hmem'⟩ := hfrom w hwm
    exact hothers r' hr' hne w hmem'
  obtain ⟨hpre, hpost⟩ := List.forall_mem_append.1 hspare
  rw [hmem, hw, replay_putThread hnic hsize]
  exact (arrived_put (replay_sparesData hpre m₀).2).same (replay_sparesData hpost _).1

/-- **A signal comes after its data.** In every reachable state, for a put with a signal in whose
ranges and at whose counter no other WQE writes: either its last WQE has not been executed and the
counter is as at first, or it has, and the counter is raised and all the data is there. -/
theorem signal_after_data (hnic : RdmaNic effect)
    (h : Reachable (Init env m₀) (Step effect) s) (hr : r ∈ s.qp.rsvs)
    (hw : r.wqes = (ChunkedOp.putSignalThread sig).planWqes args qp r.base)
    (hsize : chunksOf args.size.toNat < 2 ^ 32)
    (ha : sig.sigRaddr.key = args.raddr.key → args.dest.Apart sig.counter)
    (hothers : ∀ r' ∈ s.qp.rsvs, r' ≠ r → ∀ w ∈ r'.wqes,
      SparesData effect args w ∧ SparesCounter effect sig w) :
    s.executed ≤ r.last ∧ sig.value s.mem = sig.value m₀ ∨
      r.last < s.executed ∧ sig.value s.mem = sig.value m₀ + sig.sigVal ∧
        args.Arrived m₀ s.mem := by
  rcases Nat.lt_or_ge r.last s.executed with hlt | hge
  · obtain ⟨pre, post, hmem, hfrom⟩ := mem_of_last_lt h hr hlt
    have hspare : ∀ w ∈ pre ++ post, SparesData effect args w ∧ SparesCounter effect sig w :=
      fun w hwm => by
        obtain ⟨r', hr', hne, hmem'⟩ := hfrom w hwm
        exact hothers r' hr' hne w hmem'
    obtain ⟨hpre, hpost⟩ := List.forall_mem_append.1 hspare
    rw [hmem, hw, replay_putSignalThread hnic hsize]
    refine .inr ⟨hlt, ?_, ?_⟩
    · rw [replay_sparesCounter fun w hw => (hpost w hw).2, value_signal, value_put ha,
        replay_sparesCounter fun w hw => (hpre w hw).2]
    · have hput := arrived_put (replay_sparesData (fun w hw => (hpre w hw).1) m₀).2
      exact (arrived_signal ha hput).same (replay_sparesData (fun w hw => (hpost w hw).1) _).1
  · obtain ⟨l, hmem, hfrom⟩ := mem_of_le_last h hr hge
    refine .inl ⟨hge, ?_⟩
    rw [hmem]
    refine replay_sparesCounter (fun w hwm => ?_) m₀
    obtain hown | ⟨r', hr', hne, hmem'⟩ := hfrom w hwm
    · -- before its last WQE are its writes
      rw [hw] at hown
      simp only [ChunkedOp.planWqes, Gpunetio.putSignalThread, numChunks32_eq hsize,
        List.length_append, List.length_singleton, Nat.add_sub_cancel, List.take_left'] at hown
      have hput : w ∈ putWqes qp args.raddr args.laddr args.size r.base := by
        unfold putWqes
        rw [numChunks_eq]
        exact hown
      exact sparesCounter_of_put hnic ha hput
    · exact (hothers r' hr' hne w hmem').2

theorem Step.rsvs_subset (hi : s.Inv) (hs : Step effect s s') (hr : r ∈ s.qp.rsvs) :
    r ∈ s'.qp.rsvs := by
  cases hs with
  | post r' => exact List.mem_cons_of_mem _ hr
  | wait | fetch | execute => exact hr
  | exec a hs => rw [(hi.qp.exec_mono hs).1]; exact hr
  | complete hs => cases hs; exact hr

/-- A put of one byte. -/
def oneByte : ChunkArgs := ⟨⟨0x100#64, 1#32⟩, ⟨0x200#64, 2#32⟩, 1#64⟩

/-- A counter behind it. -/
def oneCount : SignalArgs := ⟨⟨0x300#64, 1#32⟩, ⟨0x400#64, 2#32⟩, 1#64⟩

/-- A put of the byte with the signal, at index `0`. -/
def oneSignal : Rsv Unit Qp.fourSlots :=
  ⟨(), 0, (ChunkedOp.putSignalThread oneCount).planWqes oneByte ⟨3#32, 4#32⟩ 0, by decide,
    by decide⟩

/-- A memory with bytes to put, and counters of zero. -/
def someBytes : RdmaMem := ⟨fun _ _ => 0x5a#8, fun _ _ => 0#8⟩

/-- Both WQEs are executed: the byte is there, and the counter is one. -/
theorem oneSignal_delivers :
    ∃ m : RdmaMem, oneCount.value m = oneCount.value someBytes + 1#64 ∧
      oneByte.Arrived someBytes m := by
  have hcounted : ∀ w ∈ oneSignal.wqes, w.Counted :=
    planWqes_counted (.putSignalThread oneCount) oneByte ⟨3#32, 4#32⟩ 0
  obtain ⟨q, hs, -, hrung, -, hrsvs⟩ := posted rdmaExec someBytes oneSignal rfl hcounted
  have hstop : oneSignal.stop = 2 := by decide
  have hlast : oneSignal.last = 1 := by decide
  have hfetch := (hs.next (.fetch (hrung 0 (by rw [hstop]; decide)))).next
    (.fetch (hrung 1 (by rw [hstop]; decide)))
  have hexec := (hfetch.next (.execute _ _ rfl)).next (.execute _ _ rfl)
  have hapart : oneByte.dest.Apart oneCount.counter := by
    unfold Region.Apart
    decide
  obtain ⟨-, hval, harrived⟩ := (signal_after_data rdmaNic_rdmaExec hexec
    (hrsvs ▸ List.mem_singleton_self oneSignal) rfl (by decide) (fun _ => hapart)
    fun r' hr' hne => (hne (List.mem_singleton.1 (hrsvs ▸ hr'))).elim).resolve_left
      fun hle => by
        have htwo : 2 ≤ oneSignal.last := hle.1
        omega
  exact ⟨_, hval, harrived⟩

/-- **A put is there after the wait.** A thread begins to wait for the last WQE of a put. In every
state it can come to from there, if no other WQE writes to the ranges of the put, it is still in the
wait, or all the data is there. -/
theorem put_then_wait (hnic : RdmaNic effect)
    (h : Reachable (Init env m₀) (Step effect) s) (hr : r ∈ s.qp.rsvs)
    (hw : r.wqes = ChunkedOp.putThread.planWqes args qp r.base)
    (hsize : chunksOf args.size.toNat < 2 ^ 32) {a : A} (hidle : s.qp.phase a = none)
    (hrun : ReflTransGen (Step effect) { s with qp := s.qp.wait a r.last } s')
    (hothers : ∀ r' ∈ s'.qp.rsvs, r' ≠ r → ∀ w ∈ r'.wqes, SparesData effect args w) :
    (∃ ph, s'.qp.phase a = some (.poll none ph) ∧ ph.consIndex = r.last) ∨
      args.Arrived m₀ s'.mem := by
  have hlt : r.last < s.qp.sqRsvdIndex := by
    have hle : r.stop ≤ s.qp.sqRsvdIndex := (reachable_inv h).qp.ledger.chain.hi_le hr
    have := r.last_add_one
    omega
  have h₁ := h.next (.wait a r.last hidle hlt)
  obtain ⟨hwaited, hr'⟩ : Waited a r.last s' ∧ r ∈ s'.qp.rsvs := by
    clear hothers
    induction hrun with
    | refl => exact ⟨.inl ⟨.ci r.last, Qp.goto_phase_self .., rfl⟩, hr⟩
    | tail hr hs ih =>
      have hi := reachable_inv (h₁.run hr)
      exact ⟨hi.waited_step ih.1 hs, hs.rsvs_subset hi ih.2⟩
  exact hwaited.imp_right fun hlast =>
    arrived_of_executed hnic (h₁.run hrun) hr' hw hsize hothers hlast

/-- The put of the byte, at index `0`. -/
def onePut : Rsv Unit Qp.fourSlots :=
  ⟨(), 0, ChunkedOp.putThread.planWqes oneByte ⟨3#32, 4#32⟩ 0, by decide, by decide⟩

/-- A thread puts the byte, waits and returns: the byte is there. -/
theorem onePut_arrives :
    ∃ s : NicQp Unit Qp.fourSlots RdmaMem, s.qp.phase () = none ∧
      oneByte.Arrived someBytes s.mem := by
  have hcounted : ∀ w ∈ onePut.wqes, w.Counted :=
    planWqes_counted .putThread oneByte ⟨3#32, 4#32⟩ 0
  have hlast : onePut.last = 0 := by decide
  obtain ⟨s, s', hs, hidle, -, hrsvs, hrun, hphase, hrsvs'⟩ :=
    returned rdmaExec someBytes onePut rfl (by decide) hcounted
  rw [← hlast] at hrun
  refine ⟨s', hphase, (put_then_wait rdmaNic_rdmaExec hs (hrsvs ▸ List.mem_singleton_self onePut)
    rfl (by decide) hidle hrun
    fun r' hr' hne => (hne (List.mem_singleton.1 (hrsvs' ▸ hr'))).elim).resolve_left ?_⟩
  rintro ⟨ph, hph, -⟩
  rw [hphase] at hph
  cases hph

end NicQp

end Gpunetio
