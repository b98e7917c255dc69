import Mathlib.Data.List.Range
import Mathlib.Data.Nat.Notation

/-!
# Cutting an interval into pieces

A list of pieces, each a start and a length, tiles an interval if the first begins where the
interval does, each begins where the one before ends, and the last ends with the interval.

* `Tiles most start size pieces`: such a list, with pieces that are not empty and not above `most`;
* **`tiles_range`**: as many pieces of length `most` as it takes, the last cut short, tile.
-/

namespace Tiling

/-- The pieces tile `[start, start + size)`. -/
def Tiles (most : ℕ) : ℕ → ℕ → List (ℕ × ℕ) → Prop
  | _, size, [] => size = 0
  | start, size, (o, len) :: l =>
    o = start ∧ 0 < len ∧ len ≤ most ∧ len ≤ size ∧ Tiles most (start + len) (size - len) l

variable {most start size : ℕ} {pieces : List (ℕ × ℕ)}

theorem Tiles.bounds (h : Tiles most start size pieces) {p : ℕ × ℕ} (hp : p ∈ pieces) :
    start ≤ p.1 ∧ 0 < p.2 ∧ p.2 ≤ most ∧ p.1 + p.2 ≤ start + size := by
  induction pieces generalizing start size with
  | nil => cases hp
  | cons q l ih =>
    obtain ⟨rfl, hpos, hmost, hle, ht⟩ := h
    obtain rfl | hp := List.mem_cons.1 hp
    · exact ⟨le_rfl, hpos, hmost, by omega⟩
    · have := ih ht hp
      omega

/-- The piece number `i`. -/
def piece (most size i : ℕ) : ℕ × ℕ := (i * most, min most (size - i * most))

theorem piece_eq (most size i : ℕ) : (i * most, (piece most size i).2) = piece most size i := rfl

/-- **Cutting up.** Full pieces and a shorter last one tile, if there are just enough of them. -/
theorem tiles_range (most size n i : ℕ) (hlt : ∀ k < n, (i + k) * most < size)
    (hle : size ≤ (i + n) * most) :
    Tiles most (i * most) (size - i * most)
      ((List.range n).map fun k => piece most size (i + k)) := by
  induction n generalizing i with
  | zero =>
    show size - i * most = 0
    rw [Nat.add_zero] at hle
    omega
  | succ n ih =>
    have h₀ := hlt 0 (Nat.succ_pos n)
    rw [Nat.add_zero] at h₀
    have hmost : 0 < most := by
      by_contra h
      obtain rfl : most = 0 := by omega
      rw [Nat.mul_zero] at hle h₀
      omega
    have htail := ih (i + 1)
      (fun k hk => by
        rw [Nat.add_assoc, Nat.add_comm 1]
        exact hlt (k + 1) (Nat.succ_lt_succ hk))
      (by rwa [Nat.add_assoc, Nat.add_comm 1])
    have hmul : (i + 1) * most = i * most + most := Nat.succ_mul i most
    rw [List.range_succ_eq_map, List.map_cons, List.map_map]
    refine ⟨rfl, ?_, Nat.min_le_left .., Nat.min_le_right .., ?_⟩
    · exact lt_min hmost (Nat.sub_pos_of_lt (hlt 0 (Nat.succ_pos n)))
    · have hfun : ((fun k => piece most size (i + k)) ∘ Nat.succ) =
          fun k => piece most size (i + 1 + k) := by
        funext k
        show piece most size (i + (k + 1)) = _
        rw [Nat.add_assoc, Nat.add_comm 1]
      rw [hfun]
      -- a piece before the last is full; the tail of the last is empty
      obtain hfull | hlast := Nat.lt_or_ge most (size - i * most)
      · rw [Nat.add_zero, Nat.min_eq_left hfull.le, ← hmul, Nat.sub_sub, ← hmul]
        exact htail
      · have hn : n = 0 := by
          by_contra h
          have := hlt 1 (by omega)
          omega
        subst hn
        show size - i * most - min most _ = 0
        rw [Nat.add_zero, Nat.min_eq_right hlast, Nat.sub_self]

end Tiling
