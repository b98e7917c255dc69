import Gpunetio.Lib.InOrder
import Mathlib.Data.List.Induction

/-!
# Executors that share a memory

Several executors, each with a log of its own that grows at its end, work on one memory. Each takes
the instructions of its log in order; how the executors take turns is open.

* `Interleave`, `Interleave.Step`: the logs, what has been executed of each, and the memory;
* `own`: what one executor has executed in a history of all;
* `Interleave.exists_history`: the memory is that of a history that keeps the order of each log;
* `replay_segment`, **`Interleave.segment`**: seen through a relation that all other instructions
  keep, the memory is that of a segment of one log, executed alone.
-/

variable {K I M : Type*}

/-- The logs of the executors, how much of each has been executed, and the memory. -/
@[ext]
structure Interleave (K I M : Type*) where
  log : K → List I
  executed : K → ℕ
  mem : M

namespace Interleave

open Transition

variable [DecidableEq K]

/-- What executor `k` has executed in a history of all. -/
def own (k : K) (hist : List (K × I)) : List I :=
  hist.filterMap fun e => if e.1 = k then some e.2 else none

theorem own_append_self (k : K) (i : I) (hist : List (K × I)) :
    own k (hist ++ [(k, i)]) = own k hist ++ [i] := by simp [own]

theorem own_append_of_ne {j k : K} (h : j ≠ k) (i : I) (hist : List (K × I)) :
    own k (hist ++ [(j, i)]) = own k hist := by simp [own, h]

/-- Nothing executed, and a memory. -/
structure Init (m₀ : M) (s : Interleave K I M) : Prop where
  executed : ∀ k, s.executed k = 0
  mem : s.mem = m₀

/-- A log grows, or its executor executes the next instruction. -/
inductive Step (effect : I → M → M) : Interleave K I M → Interleave K I M → Prop
  | append {s} (k : K) (l : List I) :
      Step effect s { s with log := Function.update s.log k (s.log k ++ l) }
  | execute {s} (k : K) (i : I) (h : (s.log k)[s.executed k]? = some i) :
      Step effect s
        { s with
          executed := Function.update s.executed k (s.executed k + 1)
          mem := effect i s.mem }

/-- A history of what has been executed. -/
structure History (effect : I → M → M) (m₀ : M) (s : Interleave K I M) (hist : List (K × I)) :
    Prop where
  mem : s.mem = replay (fun e => effect e.2) hist m₀
  order : ∀ k, own k hist = (s.log k).take (s.executed k)
  le : ∀ k, s.executed k ≤ (s.log k).length

variable {effect : I → M → M} {m₀ : M} {s s' : Interleave K I M} {hist : List (K × I)}

theorem History.step (h : History effect m₀ s hist) (hs : Step effect s s') :
    ∃ hist', History effect m₀ s' hist' := by
  cases hs with
  | append k l =>
    refine ⟨hist, h.mem, fun j => ?_, fun j => ?_⟩
    · rcases eq_or_ne j k with rfl | hne
      · simp only [Function.update_self, List.take_append_of_le_length (h.le j), h.order j]
      · simp only [Function.update_of_ne hne, h.order j]
    · rcases eq_or_ne j k with rfl | hne
      · simp only [Function.update_self, List.length_append]
        exact Nat.le_add_right_of_le (h.le j)
      · simp only [Function.update_of_ne hne]
        exact h.le j
  | execute k i hi =>
    refine ⟨hist ++ [(k, i)], ?_, fun j => ?_, fun j => ?_⟩
    · rw [replay_append, ← h.mem]
      rfl
    · rcases eq_or_ne j k with rfl | hne
      · simp only [own_append_self, h.order j, Function.update_self, List.take_add_one, hi,
          Option.toList_some]
      · simp only [own_append_of_ne hne.symm, h.order j, Function.update_of_ne hne]
    · rcases eq_or_ne j k with rfl | hne
      · simp only [Function.update_self]
        exact (List.getElem?_eq_some_iff.1 hi).1
      · simp only [Function.update_of_ne hne]
        exact h.le j

theorem exists_history (h : Reachable (Init m₀) (Step effect) s) :
    ∃ hist, History effect m₀ s hist := by
  refine h.invariant (P := fun s => ∃ hist, History effect m₀ s hist)
    (fun s h₀ => ⟨[], h₀.mem, fun k => ?_, fun k => ?_⟩) fun _ _ ⟨_, hh⟩ hs => hh.step hs
  · rw [h₀.executed k]
    rfl
  · rw [h₀.executed k]
    exact Nat.zero_le _

/-- A history seen through a relation: `R` is kept by the instructions of a segment `ws` on both
sides, and by all others on the left. -/
theorem replay_segment {R : M → M → Prop} {m m' : M} {k : K} {pre ws post : List I} {n : ℕ}
    (h₀ : R m m') (hn : n ≤ (pre ++ (ws ++ post)).length)
    (hk : own k hist = (pre ++ (ws ++ post)).take n)
    (hown : ∀ i ∈ ws, ∀ m m', R m m' → R (effect i m) (effect i m'))
    (hspare : ∀ i ∈ pre ++ post, ∀ m m', R m m' → R (effect i m) m')
    (hother : ∀ e ∈ hist, e.1 ≠ k → ∀ m m', R m m' → R (effect e.2 m) m') :
    R (replay (fun e => effect e.2) hist m) (replay effect (ws.take (n - pre.length)) m') := by
  induction hist using List.reverseRecOn generalizing n with
  | nil =>
    have hzero : ((pre ++ (ws ++ post)).take n).length = 0 := congrArg List.length hk.symm
    rw [List.length_take_of_le hn] at hzero
    rw [hzero, Nat.zero_sub]
    exact h₀
  | append_singleton hist e ih =>
    obtain ⟨j, i⟩ := e
    have hrest : ∀ e ∈ hist, e.1 ≠ k → ∀ m m', R m m' → R (effect e.2 m) m' :=
      fun e he => hother e (List.mem_append_left _ he)
    rw [replay_append]
    by_cases hj : j = k
    · -- the next instruction of the log
      subst hj
      rw [own_append_self] at hk
      have hlen : (own j hist).length + 1 = n := by
        have hcount := congrArg List.length hk
        rwa [List.length_append, List.length_singleton, List.length_take_of_le hn] at hcount
      obtain ⟨hk', hi⟩ : own j hist = (pre ++ (ws ++ post)).take (own j hist).length ∧
          (pre ++ (ws ++ post))[(own j hist).length]? = some i := by
        have hget : (pre ++ (ws ++ post))[(own j hist).length]? = some i := by
          rw [← List.getElem?_take_of_lt (Nat.lt_of_succ_le hlen.le), ← hk,
            List.getElem?_concat_length]
        refine ⟨?_, hget⟩
        rw [← hlen, List.take_add_one, hget] at hk
        exact List.append_cancel_right hk
      have hprev := ih (by omega) hk' hrest
      generalize (own j hist).length = c at hlen hi hprev
      subst hlen
      rcases Nat.lt_or_ge c pre.length with hpre | hpre
      · rw [List.getElem?_append_left hpre] at hi
        have hsame : c + 1 - pre.length = c - pre.length := by omega
        rw [hsame]
        exact hspare i (List.mem_append_left _ (List.mem_of_getElem? hi)) _ _ hprev
      rw [List.getElem?_append_right hpre] at hi
      have hnext : c + 1 - pre.length = c - pre.length + 1 := by omega
      rw [hnext]
      rcases Nat.lt_or_ge (c - pre.length) ws.length with hws | hws
      · rw [List.getElem?_append_left hws] at hi
        rw [List.take_add_one, hi, replay_append]
        exact hown i (List.mem_of_getElem? hi) _ _ hprev
      · rw [List.getElem?_append_right hws] at hi
        rw [List.take_of_length_le (by omega)] at hprev ⊢
        exact hspare i (List.mem_append_right _ (List.mem_of_getElem? hi)) _ _ hprev
    · rw [own_append_of_ne hj] at hk
      exact hother _ (List.mem_append_right _ List.mem_cons_self) hj _ _ (ih hn hk hrest)

/-- **A segment alone.** Seen through a relation that the instructions of all other logs, and those
before and after a segment of the log of `k`, keep on the left, the memory is that of the segment
executed alone as far as `k` has come. -/
theorem segment (h : Reachable (Init m₀) (Step effect) s) {R : M → M → Prop} {k : K}
    {pre ws post : List I} (h₀ : R m₀ m₀) (hlog : s.log k = pre ++ (ws ++ post))
    (hown : ∀ i ∈ ws, ∀ m m', R m m' → R (effect i m) (effect i m'))
    (hspare : ∀ i ∈ pre ++ post, ∀ m m', R m m' → R (effect i m) m')
    (hother : ∀ j ≠ k, ∀ i ∈ s.log j, ∀ m m', R m m' → R (effect i m) m') :
    R s.mem (replay effect (ws.take (s.executed k - pre.length)) m₀) := by
  obtain ⟨hist, hmem, horder, hle⟩ := exists_history h
  rw [hmem]
  have hk := horder k
  have hn := hle k
  rw [hlog] at hk hn
  refine replay_segment h₀ hn hk hown hspare fun e he hne => ?_
  have hin : e.2 ∈ own e.1 hist := List.mem_filterMap.2 ⟨e, he, if_pos rfl⟩
  rw [horder e.1] at hin
  exact hother e.1 hne e.2 (List.mem_of_mem_take hin)

end Interleave
