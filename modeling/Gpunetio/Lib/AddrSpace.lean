import Gpunetio.Lib.ByteMem
import Gpunetio.Lib.Region
import Gpunetio.Lib.Tiling

/-!
# Address spaces under keys

A byte at each address of `w` bits under each key, such as a memory key. Addresses wrap around.

* `blit`: a copy from one space to another; `blit_apply`, `blit_of_not_has`: what it writes;
* `blit_add`: two copies, one behind the other; **`foldl_blit`**: pieces that tile a range;
* `AddrSpace.Same`: two spaces agree on a region; `Same.blit`, `Same.blit_into`;
* `word`, `setWord`: words of 64 bits; `word_setWord`.
-/

/-- A byte at each address under each key. -/
abbrev AddrSpace (K : Type*) (w : ℕ) := K → BitVec w → BitVec 8

namespace AddrSpace

open Tiling

variable {K : Type*} {w : ℕ}

/-- The spaces agree on a region. -/
def Same (m m' : AddrSpace K w) (k : K) (r : Region w) : Prop := ∀ a, r.Has a → m k a = m' k a

theorem Same.refl {m : AddrSpace K w} {k : K} {r : Region w} : Same m m k r := fun _ _ => rfl

theorem Same.symm {m m' : AddrSpace K w} {k : K} {r : Region w} (h : Same m m' k r) :
    Same m' m k r := fun a ha => (h a ha).symm

theorem Same.trans {m m' m'' : AddrSpace K w} {k : K} {r : Region w} (h : Same m m' k r)
    (h' : Same m' m'' k r) : Same m m'' k r := fun a ha => (h a ha).trans (h' a ha)

variable [DecidableEq K]

/-- `n` bytes from `s` under `sk` of `src` to `d` under `dk`. -/
def blit (src : AddrSpace K w) (sk : K) (s : BitVec w) (dk : K) (d : BitVec w) (n : ℕ)
    (dst : AddrSpace K w) : AddrSpace K w := fun k a =>
  if k = dk ∧ (a - d).toNat < n then src sk (s + (a - d)) else dst k a

variable {src dst : AddrSpace K w} {sk dk k : K} {s d a : BitVec w} {n m : ℕ}

theorem blit_zero : blit src sk s dk d 0 dst = dst := by
  funext k a
  exact if_neg fun h => Nat.not_lt_zero _ h.2

/-- An address by its distance from another. -/
theorem toNat_sub_ofNat (h : n < 2 ^ w) :
    (a - (d + BitVec.ofNat w n)).toNat =
      if n ≤ (a - d).toNat then (a - d).toNat - n else 2 ^ w - n + (a - d).toNat := by
  have hsub : a - (d + BitVec.ofNat w n) = (a - d) - BitVec.ofNat w n := by
    rw [BitVec.sub_sub]
  have hn : (BitVec.ofNat w n).toNat = n := by rw [BitVec.toNat_ofNat, Nat.mod_eq_of_lt h]
  have hlt := (a - d).isLt
  rw [hsub, BitVec.toNat_sub, hn]
  split
  · rename_i hle
    have heq : 2 ^ w - n + (a - d).toNat = (a - d).toNat - n + 2 ^ w := by omega
    rw [heq, Nat.add_mod_right, Nat.mod_eq_of_lt (by omega)]
  · exact Nat.mod_eq_of_lt (by omega)

/-- **One copy behind the other** is one copy. -/
theorem blit_add (h : n + m ≤ 2 ^ w) :
    blit src sk (s + BitVec.ofNat w n) dk (d + BitVec.ofNat w n) m (blit src sk s dk d n dst) =
      blit src sk s dk d (n + m) dst := by
  obtain rfl | hm := Nat.eq_zero_or_pos m
  · rw [blit_zero, Nat.add_zero]
  funext k a
  have hdist := toNat_sub_ofNat (a := a) (d := d) (n := n) (by omega)
  unfold blit
  by_cases hk : k = dk
  · simp only [hk, true_and]
    rcases Nat.lt_or_ge (a - d).toNat n with hlt | hge
    · rw [if_neg (by omega)] at hdist
      rw [if_neg (by omega), if_pos hlt, if_pos (by omega)]
    · rw [if_pos hge] at hdist
      rw [if_neg (Nat.not_lt.2 hge)]
      by_cases hin : (a - d).toNat < n + m
      · have haddr : s + BitVec.ofNat w n + (a - (d + BitVec.ofNat w n)) = s + (a - d) := by
          rw [← BitVec.sub_sub, BitVec.add_assoc, BitVec.add_comm (BitVec.ofNat w n),
            BitVec.sub_add_cancel]
        rw [if_pos (by omega), if_pos hin, haddr]
      · rw [if_neg (by omega), if_neg hin]
  · rw [if_neg (fun h => hk h.1), if_neg (fun h => hk h.1), if_neg (fun h => hk h.1)]

/-- **Pieces that tile a range**, copied one after the other, are the range copied. -/
theorem foldl_blit (src : AddrSpace K w) (sk : K) (s : BitVec w) (dk : K) (d : BitVec w)
    (dst : AddrSpace K w) {most start size : ℕ} {pieces : List (ℕ × ℕ)}
    (h : Tiles most start size pieces) (hle : start + size ≤ 2 ^ w) :
    pieces.foldl (fun m p => blit src sk (s + BitVec.ofNat w p.1) dk (d + BitVec.ofNat w p.1) p.2 m)
        (blit src sk s dk d start dst) =
      blit src sk s dk d (start + size) dst := by
  induction pieces generalizing start size with
  | nil =>
    obtain rfl : size = 0 := h
    rfl
  | cons p l ih =>
    obtain ⟨rfl, -, -, hsize, ht⟩ := h
    have hsum : p.1 + p.2 + (size - p.2) = p.1 + size := by omega
    rw [List.foldl_cons, blit_add (by omega), ih ht (by omega), hsum]

/-- What is in the copy. -/
theorem blit_apply (h : n ≤ 2 ^ w) {i : ℕ} (hi : i < n) :
    blit src sk s dk d n dst dk (d + BitVec.ofNat w i) = src sk (s + BitVec.ofNat w i) := by
  have hsub : d + BitVec.ofNat w i - d = BitVec.ofNat w i := by
    rw [BitVec.add_comm, BitVec.add_sub_cancel]
  have hlt : (BitVec.ofNat w i).toNat < n := by
    rw [BitVec.toNat_ofNat, Nat.mod_eq_of_lt (by omega)]
    exact hi
  unfold blit
  rw [hsub, if_pos ⟨rfl, hlt⟩]

/-- Nothing else is written. -/
theorem blit_of_not_has (h : k = dk → ¬ Region.Has ⟨d, n⟩ a) :
    blit src sk s dk d n dst k a = dst k a := by
  refine if_neg fun ⟨hk, hlt⟩ => h hk ⟨(a - d).toNat, hlt, ?_⟩
  rw [BitVec.ofNat_toNat, BitVec.setWidth_eq, BitVec.add_comm, BitVec.sub_add_cancel]

/-- A copy leaves a region alone that it does not write to. -/
theorem same_blit_of_apart {r : Region w} (h : k = dk → Region.Apart ⟨d, n⟩ r) :
    Same (blit src sk s dk d n dst) dst k r := by
  rintro a ⟨i, hi, rfl⟩
  refine blit_of_not_has fun hk => ?_
  rintro ⟨j, hj, heq⟩
  exact h hk j hj i hi heq.symm

/-- Two copies of the same bytes. -/
theorem Same.blit {src' dst' : AddrSpace K w} (hn : n ≤ 2 ^ w) (h : Same src src' sk ⟨s, n⟩) :
    Same (blit src sk s dk d n dst) (blit src' sk s dk d n dst') dk ⟨d, n⟩ := by
  rintro a ⟨i, hi, rfl⟩
  rw [blit_apply hn hi, blit_apply hn hi]
  exact h _ ⟨i, hi, rfl⟩

/-- Copies from spaces that agree on what is copied, into spaces that agree on a region. -/
theorem Same.blit_into {src' dst' : AddrSpace K w} {r : Region w} (hn : n ≤ 2 ^ w)
    (h : Same src src' sk ⟨s, n⟩) (hd : Same dst dst' k r) :
    Same (AddrSpace.blit src sk s dk d n dst) (AddrSpace.blit src' sk s dk d n dst') k r := by
  intro a ha
  by_cases hin : k = dk ∧ Region.Has ⟨d, n⟩ a
  · obtain ⟨rfl, hin⟩ := hin
    exact Same.blit hn h a hin
  · have hout : k = dk → ¬ Region.Has ⟨d, n⟩ a := fun hk hb => hin ⟨hk, hb⟩
    rw [blit_of_not_has hout, blit_of_not_has hout]
    exact hd a ha

/-! ## Words -/

omit [DecidableEq K] in
/-- The word of 64 bits at an address, least significant byte first. -/
def word (m : AddrSpace K w) (k : K) (a : BitVec w) : BitVec 64 :=
  ByteMem.load 64 0 fun i => m k (a + BitVec.ofNat w i)

/-- A store of a word. -/
def setWord (k : K) (a : BitVec w) (x : BitVec 64) (m : AddrSpace K w) : AddrSpace K w :=
  fun k' a' => if k' = k ∧ (a' - a).toNat < 8 then x.extractLsb' (8 * (a' - a).toNat) 8 else m k' a'

omit [DecidableEq K] in
theorem Same.word {m m' : AddrSpace K w} (h : Same m m' k ⟨a, 8⟩) : m.word k a = m'.word k a := by
  apply ByteMem.load_congr
  intro i hi
  rw [Nat.zero_add]
  exact h _ ⟨i, hi, rfl⟩

/-- A word reads back. -/
theorem word_setWord (hw : 8 ≤ 2 ^ w) (x : BitVec 64) (m : AddrSpace K w) :
    (setWord k a x m).word k a = x := by
  refine Eq.trans (ByteMem.load_congr fun i hi => ?_)
    (ByteMem.load_store_self (m := fun _ => 0) (by decide) x)
  have hi8 : i < 8 := hi
  have hsub : a + BitVec.ofNat w i - a = BitVec.ofNat w i := by
    rw [BitVec.add_comm, BitVec.add_sub_cancel]
  have hval : (BitVec.ofNat w i).toNat = i := by
    rw [BitVec.toNat_ofNat, Nat.mod_eq_of_lt (by omega)]
  rw [Nat.zero_add, ByteMem.store_of_mem (Nat.zero_le i) (by omega), Nat.sub_zero, setWord, hsub,
    hval, if_pos ⟨rfl, hi8⟩]

/-- A store of a word leaves a region alone that it is not in. -/
theorem same_setWord_of_apart {k' : K} {r : Region w} {x : BitVec 64} {m : AddrSpace K w}
    (h : k' = k → Region.Apart ⟨a, 8⟩ r) : Same (setWord k a x m) m k' r := by
  rintro a' ⟨i, hi, rfl⟩
  refine if_neg fun ⟨hk, hlt⟩ => ?_
  refine h hk (r.start + BitVec.ofNat w i - a).toNat hlt i hi ?_
  rw [BitVec.ofNat_toNat, BitVec.setWidth_eq, BitVec.add_comm, BitVec.sub_add_cancel]

end AddrSpace
