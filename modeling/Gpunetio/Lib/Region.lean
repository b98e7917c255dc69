import Mathlib.Algebra.Group.Nat.Defs
import Mathlib.Data.Finset.Card

/-!
# Regions of an address space

A region is a number of bytes from an address on, in an address space of `w` bits that wraps around.

* `Region`, `Region.Apart`: no byte in common;
* **`Region.apart_of_le`**: regions at offsets from one address, one behind the other;
* `Region.apart_append`: a region in two parts;
* `Region.Has`, `Region.Within`: a byte of a region, a region inside another; `within_of_le`, and
  **`Within.length_le`**: there is no room for a longer one;
* `Window`, `Window.Shows`: a range of addresses under which memory elsewhere is seen.
-/

/-- Bytes from an address on. -/
structure Region (w : ℕ) where
  start : BitVec w
  length : ℕ
deriving DecidableEq, Repr

namespace Region

variable {w : ℕ} {a : BitVec w} {r r' : Region w} {o o' n n' : ℕ}

/-- No byte in common. -/
def Apart (r r' : Region w) : Prop :=
  ∀ i < r.length, ∀ j < r'.length, r.start + BitVec.ofNat w i ≠ r'.start + BitVec.ofNat w j

/-- Different offsets from an address are different addresses. -/
theorem offset_inj {i j : ℕ} (hi : i < 2 ^ w) (hj : j < 2 ^ w)
    (h : a + BitVec.ofNat w i = a + BitVec.ofNat w j) : i = j := by
  have hmod := congrArg BitVec.toNat ((BitVec.add_right_inj a).1 h)
  rwa [BitVec.toNat_ofNat, BitVec.toNat_ofNat, Nat.mod_eq_of_lt hi, Nat.mod_eq_of_lt hj] at hmod

theorem Apart.symm (h : r.Apart r') : r'.Apart r :=
  fun i hi j hj he => h j hj i hi he.symm

/-- **One behind the other.** -/
theorem apart_of_le (h : o + n ≤ o') (h' : o' + n' ≤ 2 ^ w) :
    Apart ⟨a + BitVec.ofNat w o, n⟩ ⟨a + BitVec.ofNat w o', n'⟩ := by
  intro i hi j hj he
  have hin : i < n := hi
  have hjn : j < n' := hj
  rw [BitVec.add_assoc, BitVec.add_assoc, ← BitVec.ofNat_add, ← BitVec.ofNat_add] at he
  have hoff := offset_inj (by omega) (by omega) he
  omega

theorem apart_behind (h : n ≤ o') (h' : o' + n' ≤ 2 ^ w) :
    Apart ⟨a, n⟩ ⟨a + BitVec.ofNat w o', n'⟩ := by
  have hzero : Apart ⟨a + BitVec.ofNat w 0, n⟩ ⟨a + BitVec.ofNat w o', n'⟩ :=
    apart_of_le (by omega) h'
  rwa [BitVec.add_zero] at hzero

theorem not_apart_of_start_eq (hs : r.start = r'.start) (hr : 0 < r.length)
    (hr' : 0 < r'.length) : ¬ r.Apart r' := by
  intro h
  exact h 0 hr 0 hr' (by rw [hs])

/-- A region in two parts. -/
theorem apart_append :
    Apart ⟨a, n + n'⟩ r ↔ Apart ⟨a, n⟩ r ∧ Apart ⟨a + BitVec.ofNat w n, n'⟩ r := by
  have hshift : ∀ i, a + BitVec.ofNat w n + BitVec.ofNat w i = a + BitVec.ofNat w (n + i) := by
    intro i
    rw [BitVec.add_assoc, ← BitVec.ofNat_add]
  constructor
  · intro h
    refine ⟨fun i hi => h i (Nat.lt_add_right n' hi), fun i hi => ?_⟩
    show ∀ j < r.length, a + BitVec.ofNat w n + BitVec.ofNat w i ≠ _
    rw [hshift]
    exact h (n + i) (Nat.add_lt_add_left hi n)
  · rintro ⟨hfirst, hrest⟩ i hi
    have hlt : i < n + n' := hi
    obtain hin | hin := Nat.lt_or_ge i n
    · exact hfirst i hin
    · have hpart : ∀ j < r.length, a + BitVec.ofNat w n + BitVec.ofNat w (i - n) ≠
          r.start + BitVec.ofNat w j := hrest (i - n) (show i - n < n' by omega)
      rwa [hshift, Nat.add_sub_cancel' hin] at hpart

/-! ## Regions inside regions -/

/-- A byte of the region. -/
def Has (r : Region w) (b : BitVec w) : Prop := ∃ i < r.length, b = r.start + BitVec.ofNat w i

/-- All bytes of `r` are bytes of `r'`. -/
def Within (r r' : Region w) : Prop := ∀ i < r.length, r'.Has (r.start + BitVec.ofNat w i)

theorem within_of_le (h : o + n ≤ n') : Within ⟨a + BitVec.ofNat w o, n⟩ ⟨a, n'⟩ := by
  intro i hi
  have hin : i < n := hi
  refine ⟨o + i, Nat.lt_of_lt_of_le (Nat.add_lt_add_left hin o) h, ?_⟩
  rw [BitVec.add_assoc, ← BitVec.ofNat_add]

theorem within_start (h : n ≤ n') : Within ⟨a, n⟩ ⟨a, n'⟩ := fun i hi => ⟨i, hi.trans_le h, rfl⟩

/-- **A region does not fit into a shorter one**, unless it is longer than the address space. -/
theorem Within.length_le (h : r.Within r') (hr : r.length ≤ 2 ^ w) : r.length ≤ r'.length := by
  choose! f hf hval using h
  have hinj : Set.InjOn f (Finset.range r.length) := by
    intro i hi j hj heq
    have hi := Finset.mem_range.1 hi
    have hj := Finset.mem_range.1 hj
    refine offset_inj (a := r.start) (by omega) (by omega) ?_
    rw [hval i hi, hval j hj, heq]
  have hmaps : ∀ i ∈ Finset.range r.length, f i ∈ Finset.range r'.length := fun i hi =>
    Finset.mem_range.2 (hf i (Finset.mem_range.1 hi))
  have hcard := Finset.card_le_card_of_injOn f hmaps hinj
  rwa [Finset.card_range, Finset.card_range] at hcard

end Region

/-- Addresses under which the memory from `target` on is seen. -/
structure Window (w : ℕ) where
  seen : Region w
  target : BitVec w
deriving DecidableEq, Repr

/-- The bytes of `r` are seen through the window, and they are bytes of `r'`. -/
def Window.Shows {w : ℕ} (v : Window w) (r r' : Region w) : Prop :=
  ∀ i < r.length, ∃ j < v.seen.length,
    r.start + BitVec.ofNat w i = v.seen.start + BitVec.ofNat w j ∧
      r'.Has (v.target + BitVec.ofNat w j)

theorem Window.shows_seen {w : ℕ} {v : Window w} {r' : Region w}
    (h : Region.Within ⟨v.target, v.seen.length⟩ r') : v.Shows v.seen r' :=
  fun i hi => ⟨i, hi, rfl, h i hi⟩
