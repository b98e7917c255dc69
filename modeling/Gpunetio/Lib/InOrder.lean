import Gpunetio.Lib.Transition
import Mathlib.Data.List.TakeDrop
import Mathlib.Data.Nat.Notation
import Mathlib.Order.Lattice

/-!
# Executing a log in order

A log of instructions grows at its end. An executor reads the instructions in the order of the log,
ahead of their execution as far as it likes, and executes them in the order in which it has read
them, on a memory of its own.

* `replay`: a list of instructions, one after the other; `replay_append`;
* `InOrder`: the log and the executor; `InOrder.Step`: growing, reading, executing;
* `InOrder.Inv`, `InOrder.reachable_inv`;
* **`InOrder.mem_eq_replay`**: the memory is that of the instructions executed so far, replayed.
-/

variable {I M : Type*}

/-- The instructions one after the other. -/
def replay (effect : I → M → M) (l : List I) (m : M) : M := l.foldl (fun m i => effect i m) m

theorem replay_append (effect : I → M → M) (l l' : List I) (m : M) :
    replay effect (l ++ l') m = replay effect l' (replay effect l m) := List.foldl_append

theorem replay_cons (effect : I → M → M) (i : I) (l : List I) (m : M) :
    replay effect (i :: l) m = replay effect l (effect i m) := rfl

/-- What an invariant of every instruction is an invariant of all. -/
theorem replay_invariant {effect : I → M → M} {P : M → Prop} {l : List I} {m : M} (h : P m)
    (hstep : ∀ i ∈ l, ∀ m, P m → P (effect i m)) : P (replay effect l m) := by
  induction l generalizing m with
  | nil => exact h
  | cons i l ih =>
    exact ih (hstep i List.mem_cons_self m h) fun j hj => hstep j (List.mem_cons_of_mem _ hj)

/-- A log and its executor: `pending` has been read and not executed, oldest first. -/
structure InOrder (I M : Type*) where
  log : List I
  fetched : ℕ
  pending : List I
  mem : M

namespace InOrder

open Transition

/-- The number of instructions executed. -/
def executed (s : InOrder I M) : ℕ := s.fetched - s.pending.length

/-- Nothing in the log, and a memory. -/
structure Init (m₀ : M) (s : InOrder I M) : Prop where
  log : s.log = []
  fetched : s.fetched = 0
  pending : s.pending = []
  mem : s.mem = m₀

/-- The log grows, its next instruction is read, or the oldest one read is executed. -/
inductive Step (effect : I → M → M) : InOrder I M → InOrder I M → Prop
  | append {s} (l : List I) : Step effect s { s with log := s.log ++ l }
  | fetch {s} (i : I) (h : s.log[s.fetched]? = some i) :
      Step effect s { s with fetched := s.fetched + 1, pending := s.pending ++ [i] }
  | execute {s} (i : I) (rest : List I) (h : s.pending = i :: rest) :
      Step effect s { s with pending := rest, mem := effect i s.mem }

/-- **The invariant**: what has been read is what has been executed and what is pending. -/
structure Inv (effect : I → M → M) (m₀ : M) (s : InOrder I M) : Prop where
  length_le : s.pending.length ≤ s.fetched
  fetched_le : s.fetched ≤ s.log.length
  split : s.log.take s.executed ++ s.pending = s.log.take s.fetched
  mem : s.mem = replay effect (s.log.take s.executed) m₀

variable {effect : I → M → M} {m₀ : M} {s s' : InOrder I M}

theorem Init.inv (h : Init m₀ s) : s.Inv effect m₀ := by
  obtain ⟨hl, hf, hp, hm⟩ := h
  refine ⟨?_, ?_, ?_, ?_⟩ <;> simp [executed, hl, hf, hp, hm, replay]

theorem Inv.append (h : s.Inv effect m₀) (l : List I) :
    Inv effect m₀ { s with log := s.log ++ l } := by
  have hle : s.executed ≤ s.log.length := (Nat.sub_le _ _).trans h.fetched_le
  refine ⟨h.length_le, ?_, ?_, ?_⟩
  · rw [List.length_append]
    exact Nat.le_add_right_of_le h.fetched_le
  · show (s.log ++ l).take s.executed ++ s.pending = (s.log ++ l).take s.fetched
    rw [List.take_append_of_le_length hle, List.take_append_of_le_length h.fetched_le, h.split]
  · show s.mem = replay effect ((s.log ++ l).take s.executed) m₀
    rw [List.take_append_of_le_length hle, h.mem]

theorem Inv.fetch (h : s.Inv effect m₀) {i : I} (hi : s.log[s.fetched]? = some i) :
    Inv effect m₀ { s with fetched := s.fetched + 1, pending := s.pending ++ [i] } := by
  have hsame : executed { s with fetched := s.fetched + 1, pending := s.pending ++ [i] } =
      s.executed := by
    simp only [executed, List.length_append, List.length_singleton]
    omega
  obtain ⟨hlt, -⟩ := List.getElem?_eq_some_iff.1 hi
  refine ⟨?_, hlt, ?_, ?_⟩
  · simp only [List.length_append, List.length_singleton]
    exact Nat.succ_le_succ h.length_le
  · rw [hsame, ← List.append_assoc, h.split, List.take_add_one, hi]
    rfl
  · rw [hsame]
    exact h.mem

/-- The oldest instruction pending is the next one of the log. -/
theorem Inv.getElem?_executed (h : s.Inv effect m₀) {i : I} {rest : List I}
    (hp : s.pending = i :: rest) : s.executed < s.fetched ∧ s.log[s.executed]? = some i := by
  have hle := h.length_le
  have hlt : s.executed < s.fetched := by
    rw [hp, List.length_cons] at hle
    simp only [executed, hp, List.length_cons]
    omega
  have hsplit := congrArg (·[s.executed]?) h.split
  have hlen : (s.log.take s.executed).length = s.executed :=
    List.length_take_of_le (hlt.le.trans h.fetched_le)
  simp only [List.getElem?_take_of_lt hlt, hp] at hsplit
  rw [List.getElem?_append_right hlen.le, hlen, Nat.sub_self] at hsplit
  exact ⟨hlt, hsplit.symm⟩

theorem Inv.execute (h : s.Inv effect m₀) {i : I} {rest : List I} (hp : s.pending = i :: rest) :
    Inv effect m₀ { s with pending := rest, mem := effect i s.mem } := by
  obtain ⟨hlt, hi⟩ := h.getElem?_executed hp
  have hle := h.length_le
  rw [hp, List.length_cons] at hle
  have hnext : executed { s with pending := rest, mem := effect i s.mem } = s.executed + 1 := by
    simp only [executed, hp, List.length_cons]
    omega
  have htake : s.log.take (s.executed + 1) = s.log.take s.executed ++ [i] := by
    rw [List.take_add_one, hi]
    rfl
  refine ⟨(Nat.le_succ _).trans hle, h.fetched_le, ?_, ?_⟩
  · rw [hnext, htake, List.append_assoc, ← h.split, hp]
    rfl
  · rw [hnext, htake, replay_append, ← h.mem]
    rfl

theorem reachable_inv (h : Reachable (Init m₀) (Step effect) s) : s.Inv effect m₀ := by
  refine h.invariant (fun _ h₀ => h₀.inv) fun s s' hi hs => ?_
  cases hs with
  | append l => exact hi.append l
  | fetch i h => exact hi.fetch h
  | execute i rest h => exact hi.execute h

/-- **In order.** However far the executor reads ahead, its memory is that of the instructions
executed so far, one after the other in the order of the log. -/
theorem mem_eq_replay (h : Reachable (Init m₀) (Step effect) s) :
    s.mem = replay effect (s.log.take s.executed) m₀ := (reachable_inv h).mem

end InOrder
