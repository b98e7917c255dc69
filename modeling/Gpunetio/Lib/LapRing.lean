import Mathlib.Logic.Function.Basic
import Mathlib.Data.Nat.ModEq

/-!
# Rings with a lap flag

A producer writes the entries `0, 1, 2, …` one after the other into a ring of `n` slots, entry `k`
into slot `k % n`, over whatever was there. A reader that knows neither the producer's position nor
whether a slot has been written recognises entry `k` by a flag in the entry that flips at every lap
around the ring.

* `lapBit n k`: the flag of entry `k`, the parity of its lap;
* `Holds n Is Blank C ring`: the ring after `C` writes. `Is k e` says that `e` is what the producer
  writes as entry `k`, `Blank e` that `e` is what a slot holds before the first lap;
* `Holds.init`, `Holds.write`: the empty ring, and one more write;
* `Holds.slot_of_lt`, `Holds.slot_of_ge`: what slot `k % n` holds, for `k` within a lap of `C`;
* **`Holds.flag_iff`**: within a lap of the producer on either side, the flag test decides whether
  entry `k` has been written.
-/

namespace LapRing

variable {E : Type*} {n C k : ℕ}

/-- The parity of the lap entry `k` belongs to. -/
def lapBit (n k : ℕ) : Bool := k / n % 2 == 1

theorem lapBit_of_lt (h : k < n) : lapBit n k = false := by
  simp [lapBit, Nat.div_eq_of_lt h]

theorem lapBit_add (hn : 0 < n) : lapBit n (k + n) = !lapBit n k := by
  unfold lapBit
  rw [Nat.add_div_right k hn]
  rcases Nat.mod_two_eq_zero_or_one (k / n) with h | h
  · have h' : (k / n + 1) % 2 = 1 := by omega
    simp [h, h']
  · have h' : (k / n + 1) % 2 = 0 := by omega
    simp [h, h']

theorem lapBit_sub (hn : 0 < n) (h : n ≤ k) : lapBit n (k - n) = !lapBit n k := by
  have := lapBit_add (k := k - n) hn
  rw [Nat.sub_add_cancel h] at this
  simp [this]

/-- Two entries less than a lap apart lie in different slots. -/
theorem mod_ne_of_lt {i j : ℕ} (h : i < j) (h' : j < i + n) : i % n ≠ j % n := by
  intro e
  have hd : n ∣ j - i := (Nat.modEq_iff_dvd' h.le).mp e
  have := Nat.le_of_dvd (by omega) hd
  omega

/-- Entries of one slot are whole laps apart. -/
theorem add_le_of_mod_eq {i j : ℕ} (h : i < j) (e : i % n = j % n) : i + n ≤ j := by
  by_contra hc
  exact mod_ne_of_lt h (by omega) e

/-- Within a window of a lap a slot determines the entry. -/
theorem eq_of_mod_eq {lo i j : ℕ} (hi : lo ≤ i ∧ i < lo + n) (hj : lo ≤ j ∧ j < lo + n)
    (e : i % n = j % n) : i = j := by
  rcases Nat.lt_trichotomy i j with h | h | h
  · have := add_le_of_mod_eq h e
    omega
  · exact h
  · have := add_le_of_mod_eq h e.symm
    omega

/-- The ring after `C` writes. -/
structure Holds (n : ℕ) (Is : ℕ → E → Prop) (Blank : E → Prop) (C : ℕ) (ring : ℕ → E) : Prop where
  live : ∀ k, k < C → C ≤ k + n → Is k (ring (k % n))
  blank : ∀ k, k < n → C ≤ k → Blank (ring k)

variable {Is : ℕ → E → Prop} {Blank : E → Prop} {ring : ℕ → E}

theorem Holds.init (h : ∀ k, k < n → Blank (ring k)) : Holds n Is Blank 0 ring :=
  ⟨fun _ hk => absurd hk (Nat.not_lt_zero _), fun k hk _ => h k hk⟩

theorem Holds.write (h : Holds n Is Blank C ring) {e : E} (he : Is C e) :
    Holds n Is Blank (C + 1) (Function.update ring (C % n) e) := by
  constructor
  · intro k hk hle
    rcases Nat.lt_succ_iff_lt_or_eq.mp hk with hlt | rfl
    · rw [Function.update_of_ne (mod_ne_of_lt hlt (by omega))]
      exact h.live k hlt (by omega)
    · rwa [Function.update_self]
  · intro k hk hle
    have hne : k ≠ C % n := by
      have := Nat.mod_le C n
      omega
    rw [Function.update_of_ne hne]
    exact h.blank k hk (by omega)

theorem Holds.slot_of_lt (h : Holds n Is Blank C ring) (hk : k < C) (hC : C ≤ k + n) :
    Is k (ring (k % n)) := h.live k hk hC

/-- An entry not yet written: its slot still holds the entry one lap before, or nothing. -/
theorem Holds.slot_of_ge (h : Holds n Is Blank C ring) (hk : C ≤ k) (hC : k < C + n) :
    (k < n ∧ Blank (ring (k % n))) ∨ (n ≤ k ∧ Is (k - n) (ring (k % n))) := by
  rcases Nat.lt_or_ge k n with hn | hn
  · rw [Nat.mod_eq_of_lt hn]
    exact .inl ⟨hn, h.blank k hn hk⟩
  · refine .inr ⟨hn, ?_⟩
    have := h.live (k - n) (by omega) (by omega)
    rwa [← Nat.mod_eq_sub_mod hn] at this

/-- **The flag test decides**, for every entry within a lap of the producer on either side. -/
theorem Holds.flag_iff (h : Holds n Is Blank C ring) (flag : E → Bool)
    (hIs : ∀ k e, Is k e → flag e = lapBit n k) (hBlank : ∀ e, Blank e → flag e = true)
    (hlo : C ≤ k + n) (hhi : k < C + n) : flag (ring (k % n)) = lapBit n k ↔ k < C := by
  constructor
  · intro hf
    by_contra hk
    rcases h.slot_of_ge (by omega) hhi with ⟨hn, hb⟩ | ⟨hn, hi⟩
    · rw [hBlank _ hb, lapBit_of_lt hn] at hf
      exact Bool.noConfusion hf
    · rw [hIs _ _ hi, lapBit_sub (by omega) hn] at hf
      exact absurd hf (by simp)
  · exact fun hk => hIs _ _ (h.slot_of_lt hk hlo)

end LapRing
