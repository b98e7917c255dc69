import Gpunetio.Lib.ByteMem
import Mathlib.Data.Nat.Bitwise
import Mathlib.Logic.Function.Basic
import Mathlib.Tactic.SplitIfs

/-!
# Bit fields of messages

A message is a sequence of bits, and a field some consecutive ones of them, the most significant
first. Fields that have no bit in common do not see each other, so a message whose fields are apart
is as good as a record.

* `Field.put`, `Field.get`: writing and reading a field;
* **`get_put`**, **`get_put_of_apart`**, `get_put_of_within`;
* `find`, `find_apart`: the fields of a structure, one behind the other;
* `Format`, `Format.run`, `last`, **`Format.get_run`**: a message after any sequence of writes;
* `Format.encode`, **`Format.run_eq_encode`**: the message of a record;
* `ByteMem.bits`, `ByteMem.storeBe`, **`bits_storeBe`**: messages in memory.
-/

namespace BitField

/-- The bits of a message. -/
abbrev Bits := ℕ → Bool

/-- The empty message. -/
def Bits.zero : Bits := fun _ => false

/-- A field: its first bit, and its width. -/
structure Field where
  off : ℕ
  sz : ℕ
deriving DecidableEq, Repr

namespace Field

/-- Bit `k` is in the field. -/
def Has (f : Field) (k : ℕ) : Prop := f.off ≤ k ∧ k < f.off + f.sz

instance (f : Field) (k : ℕ) : Decidable (f.Has k) := inferInstanceAs (Decidable (_ ∧ _))

/-- A write: the value is cut to the width. -/
def put (f : Field) (v : ℕ) (b : Bits) : Bits := fun k =>
  if f.Has k then v.testBit (f.off + f.sz - 1 - k) else b k

/-- A read. -/
def get (f : Field) (b : Bits) : ℕ := Nat.ofBits fun j : Fin f.sz => b (f.off + f.sz - 1 - j)

/-- No bit in common. -/
def Apart (f g : Field) : Prop := f.off + f.sz ≤ g.off ∨ g.off + g.sz ≤ f.off

instance (f g : Field) : Decidable (f.Apart g) := inferInstanceAs (Decidable (_ ∨ _))

/-- All bits of one field are in another. -/
def Within (g f : Field) : Prop := f.off ≤ g.off ∧ g.off + g.sz ≤ f.off + f.sz

variable {f g : Field} {b b' : Bits} {k v : ℕ}

theorem Apart.symm (h : f.Apart g) : g.Apart f := Or.symm h

theorem put_of_has (h : f.Has k) (v : ℕ) (b : Bits) :
    f.put v b k = v.testBit (f.off + f.sz - 1 - k) := if_pos h

theorem put_of_not_has (h : ¬ f.Has k) (v : ℕ) (b : Bits) : f.put v b k = b k := if_neg h

theorem testBit_get (f : Field) (b : Bits) (j : ℕ) :
    (f.get b).testBit j = (decide (j < f.sz) && b (f.off + f.sz - 1 - j)) := by
  unfold get
  rw [Nat.testBit_ofBits]
  by_cases hj : j < f.sz <;> simp [hj]

theorem get_lt (f : Field) (b : Bits) : f.get b < 2 ^ f.sz := Nat.ofBits_lt_two_pow _

/-- A read sees the bits of the field only. -/
theorem get_congr (h : ∀ k, f.Has k → b k = b' k) : f.get b = f.get b' := by
  apply Nat.eq_of_testBit_eq
  intro j
  rw [testBit_get, testBit_get]
  by_cases hj : j < f.sz
  · have hin : f.Has (f.off + f.sz - 1 - j) := ⟨by omega, by omega⟩
    rw [h _ hin]
  · rw [decide_eq_false hj, Bool.false_and, Bool.false_and]

/-- Of a wider write, a read sees its own bits. -/
theorem get_put_of_within (h : g.Within f) (v : ℕ) (b : Bits) :
    g.get (f.put v b) = v / 2 ^ (f.off + f.sz - (g.off + g.sz)) % 2 ^ g.sz := by
  apply Nat.eq_of_testBit_eq
  intro j
  rw [testBit_get, Nat.testBit_mod_two_pow, Nat.testBit_div_two_pow]
  by_cases hj : j < g.sz
  · obtain ⟨hlo, hhi⟩ := h
    have hin : f.Has (g.off + g.sz - 1 - j) := ⟨by omega, by omega⟩
    have hpos : f.off + f.sz - 1 - (g.off + g.sz - 1 - j) =
        f.off + f.sz - (g.off + g.sz) + j := by omega
    rw [put_of_has hin, hpos, Nat.add_comm]
  · rw [decide_eq_false hj, Bool.false_and, Bool.false_and]

/-- **What is read is what was written**, as far as the field has room for it. -/
theorem get_put (f : Field) (v : ℕ) (b : Bits) : f.get (f.put v b) = v % 2 ^ f.sz := by
  rw [get_put_of_within ⟨le_rfl, le_rfl⟩, Nat.sub_self, Nat.pow_zero, Nat.div_one]

/-- **A write elsewhere** is not seen. -/
theorem get_put_of_apart (h : g.Apart f) (v : ℕ) (b : Bits) : g.get (f.put v b) = g.get b := by
  refine get_congr fun k hk => put_of_not_has (fun hf => ?_) v b
  unfold Apart at h
  unfold Has at hk hf
  omega

/-- A write that is wider than it need be, over bits that are zero. -/
theorem put_eq_of_lt (hle : f.off ≤ g.off) (hend : f.off + f.sz = g.off + g.sz) (hv : v < 2 ^ g.sz)
    (hb : ∀ k, f.Has k → b k = false) : f.put v b = g.put v b := by
  funext k
  by_cases hg : g.Has k
  · have hf : f.Has k := ⟨hle.trans hg.1, hend ▸ hg.2⟩
    rw [put_of_has hf, put_of_has hg, hend]
  · rw [put_of_not_has hg]
    by_cases hf : f.Has k
    · have hpos : g.sz ≤ f.off + f.sz - 1 - k := by
        unfold Has at hf hg
        omega
      rw [put_of_has hf, hb k hf]
      exact Nat.testBit_lt_two_pow (hv.trans_le (Nat.pow_le_pow_right (by decide) hpos))
    · rw [put_of_not_has hf]

/-- A read of the empty message. -/
theorem get_zero (f : Field) : f.get .zero = 0 := by
  apply Nat.eq_of_testBit_eq
  intro j
  rw [testBit_get, Bits.zero, Bool.and_false, Nat.zero_testBit]

end Field

section Layout

variable {N : Type*} [DecidableEq N]

/-! ## Structures -/

/-- The field of a name in a structure, given the widths of its members in order; a member that has
no name is skipped. -/
def find (n : N) (off : ℕ) : List (Option N × ℕ) → Option Field
  | [] => none
  | (n', sz) :: l => if n' = some n then some ⟨off, sz⟩ else find n (off + sz) l

variable {n n' : N} {f g : Field} {l : List (Option N × ℕ)} {off : ℕ}

theorem le_of_find (h : find n off l = some f) : off ≤ f.off := by
  induction l generalizing off with
  | nil => cases h
  | cons x l ih =>
    unfold find at h
    split at h
    · obtain rfl := Option.some.inj h
      exact le_rfl
    · exact (Nat.le_add_right off x.2).trans (ih h)

/-- **The members of a structure** are apart. -/
theorem find_apart (h : find n off l = some f) (h' : find n' off l = some g) (hne : n ≠ n') :
    f.Apart g := by
  induction l generalizing off with
  | nil => cases h
  | cons x l ih =>
    unfold find at h h'
    split at h
    · rename_i hx
      obtain rfl := Option.some.inj h
      rw [if_neg (by rw [hx, Option.some.injEq]; exact hne)] at h'
      exact .inl (le_of_find h')
    · split at h'
      · obtain rfl := Option.some.inj h'
        exact .inr (le_of_find h)
      · exact ih h h'

theorem mem_of_find (h : find n off l = some f) : n ∈ l.filterMap Prod.fst := by
  induction l generalizing off with
  | nil => cases h
  | cons x l ih =>
    rw [List.mem_filterMap]
    unfold find at h
    split at h
    · exact ⟨x, List.mem_cons_self, ‹_›⟩
    · obtain ⟨y, hy, hn⟩ := List.mem_filterMap.1 (ih h)
      exact ⟨y, List.mem_cons_of_mem _ hy, hn⟩

/-! ## Formats -/

/-- A message format: a field for each name, no two of them with a bit in common. -/
structure Format (N : Type*) where
  field : N → Field
  names : List N
  apart : ∀ n n', n ≠ n' → (field n).Apart (field n')
  complete : ∀ n, n ∈ names

/-- The format of a structure that has a member for each name. -/
def Format.ofLayout (l : List (Option N × ℕ)) (h : ∀ n, (find n 0 l).isSome) : Format N where
  field := fun n => (find n 0 l).get (h n)
  names := l.filterMap Prod.fst
  apart := fun n n' hne =>
    find_apart (Option.some_get (h n)).symm (Option.some_get (h n')).symm hne
  complete := fun n => mem_of_find (Option.some_get (h n)).symm

/-- A write that is done under a condition. -/
structure Write (N : Type*) where
  guard : Bool
  name : N
  val : ℕ

/-- The last value written under a name. -/
def last (n : N) : List (Write N) → Option ℕ
  | [] => none
  | w :: l =>
    if w.name = n then (last n l).or (if w.guard then some w.val else none) else last n l

theorem last_map {names : List N} (val : N → ℕ) (h : n ∈ names) :
    last n (names.map fun n => ⟨true, n, val n⟩) = some (val n) := by
  induction names with
  | nil => cases h
  | cons n' names ih =>
    have hlast : last n ((n' :: names).map fun n => ⟨true, n, val n⟩) =
        if n' = n then (last n (names.map fun n => ⟨true, n, val n⟩)).or (some (val n'))
        else last n (names.map fun n => ⟨true, n, val n⟩) := rfl
    rw [hlast]
    by_cases hn : n ∈ names
    · rw [ih hn, Option.some_or, ite_self]
    · obtain rfl := (List.mem_cons.1 h).resolve_right hn
      have hnone : ∀ l : List N, n ∉ l →
          last n (l.map fun n => ⟨true, n, val n⟩) = none := by
        intro l hl
        induction l with
        | nil => rfl
        | cons n' l ih =>
          have hne : n' ≠ n := fun he => hl (he ▸ List.mem_cons_self)
          have hl' : n ∉ l := fun hm => hl (List.mem_cons_of_mem _ hm)
          exact (if_neg hne).trans (ih hl')
      rw [hnone _ hn, if_pos rfl, Option.none_or]

namespace Format

variable (F : Format N)

/-- A read by name. -/
def get (n : N) (b : Bits) : ℕ := (F.field n).get b

/-- A write. -/
def write (w : Write N) (b : Bits) : Bits := if w.guard then (F.field w.name).put w.val b else b

/-- Writes, one after the other. -/
def run (l : List (Write N)) (b : Bits) : Bits := l.foldl (fun b w => F.write w b) b

theorem get_write (w : Write N) (b : Bits) (n : N) :
    F.get n (F.write w b) =
      if w.name = n ∧ w.guard then w.val % 2 ^ (F.field n).sz else F.get n b := by
  unfold write get
  by_cases hg : w.guard
  · by_cases hn : w.name = n
    · subst hn
      rw [if_pos hg, if_pos ⟨rfl, hg⟩, Field.get_put]
    · rw [if_pos hg, if_neg fun h => hn h.1,
        Field.get_put_of_apart (F.apart n w.name (Ne.symm hn))]
  · rw [if_neg hg, if_neg fun h => hg h.2]

/-- **A message is as good as a record**: after any writes a name has the last value written under
it, as far as there is room, or what it had before. -/
theorem get_run (l : List (Write N)) (b : Bits) (n : N) :
    F.get n (F.run l b) =
      ((last n l).map fun v => v % 2 ^ (F.field n).sz).getD (F.get n b) := by
  induction l generalizing b with
  | nil => rfl
  | cons w l ih =>
    have hrun : F.run (w :: l) b = F.run l (F.write w b) := rfl
    have hlast : last n (w :: l) =
        if w.name = n then (last n l).or (if w.guard then some w.val else none) else last n l := rfl
    rw [hrun, ih, F.get_write, hlast]
    by_cases hn : w.name = n
    · cases last n l with
      | some v => simp [hn]
      | none => by_cases hg : w.guard <;> simp [hn, hg]
    · simp [hn]

omit [DecidableEq N] in
/-- Bits that belong to no field are never written. -/
theorem run_of_not_has {k : ℕ} (hk : ∀ n, ¬ (F.field n).Has k) (l : List (Write N)) (b : Bits) :
    F.run l b k = b k := by
  induction l generalizing b with
  | nil => rfl
  | cons w l ih =>
    refine (ih (F.write w b)).trans ?_
    unfold write
    split
    · exact Field.put_of_not_has (hk _) _ _
    · rfl

omit [DecidableEq N] in
/-- Bits that no write is for keep their values. -/
theorem run_of_apart {f : Field} {l : List (Write N)} (h : ∀ w ∈ l, (F.field w.name).Apart f)
    {k : ℕ} (hk : f.Has k) (b : Bits) : F.run l b k = b k := by
  induction l generalizing b with
  | nil => rfl
  | cons w l ih =>
    refine (ih (fun w' h' => h w' (List.mem_cons_of_mem _ h')) (F.write w b)).trans ?_
    have hout : ¬ (F.field w.name).Has k := fun hw => by
      have hapart := h w List.mem_cons_self
      unfold Field.Apart at hapart
      unfold Field.Has at hw hk
      omega
    unfold write
    split
    · exact Field.put_of_not_has hout _ _
    · rfl

omit [DecidableEq N] in
theorem run_append (l l' : List (Write N)) (b : Bits) : F.run (l ++ l') b = F.run l' (F.run l b) :=
  List.foldl_append ..

omit [DecidableEq N] in
/-- Messages with the same fields and the same bits elsewhere are the same. -/
theorem ext {b b' : Bits} (h : ∀ n, F.get n b = F.get n b')
    (hout : ∀ k, (∀ n, ¬ (F.field n).Has k) → b k = b' k) : b = b' := by
  funext k
  by_cases hk : ∃ n, (F.field n).Has k
  · obtain ⟨n, hlo, hhi⟩ := hk
    have hbit := congrArg (fun v => v.testBit ((F.field n).off + (F.field n).sz - 1 - k)) (h n)
    have hsz : (F.field n).off + (F.field n).sz - 1 - k < (F.field n).sz := by omega
    have hpos : (F.field n).off + (F.field n).sz - 1 -
        ((F.field n).off + (F.field n).sz - 1 - k) = k := by omega
    unfold get at hbit
    simpa only [Field.testBit_get, hsz, hpos, decide_true, Bool.true_and] using hbit
  · exact hout k fun n hn => hk ⟨n, hn⟩

/-- The message of a record. -/
def encode (val : N → ℕ) : Bits := F.run (F.names.map fun n => ⟨true, n, val n⟩) .zero

theorem get_encode (val : N → ℕ) (n : N) : F.get n (F.encode val) = val n % 2 ^ (F.field n).sz := by
  unfold encode
  rw [get_run, last_map val (F.complete n)]
  rfl

/-- **Writes to the empty message** make the message of the record of the last values. -/
theorem run_eq_encode {l : List (Write N)} {val : N → ℕ}
    (h : ∀ n, (last n l).getD 0 % 2 ^ (F.field n).sz = val n % 2 ^ (F.field n).sz) :
    F.run l .zero = F.encode val := by
  refine F.ext (fun n => ?_) fun k hk => ?_
  · have hzero : F.get n .zero = 0 := Field.get_zero _
    rw [get_run, get_encode, ← h, hzero]
    cases last n l <;> simp
  · exact (F.run_of_not_has hk _ _).trans (F.run_of_not_has hk _ _).symm

end Format

end Layout

end BitField

/-! ## Messages in memory -/

namespace ByteMem

open BitField

variable {w p : ℕ} {m : ByteMem}

/-- The message that lies in memory: of each byte, the most significant bit comes first. -/
def bits (m : ByteMem) : Bits := fun k => (m (k / 8)).getLsbD (7 - k % 8)

/-- A store of the bytes of a word at `p`, the most significant first. -/
def storeBe (p : ℕ) (x : BitVec w) (m : ByteMem) : ByteMem := fun a =>
  if p ≤ a ∧ a < p + w / 8 then x.extractLsb' (w - 8 - 8 * (a - p)) 8 else m a

/-- **A big-endian store** writes a field. -/
theorem bits_storeBe (hw : 8 ∣ w) (p : ℕ) (x : BitVec w) (m : ByteMem) :
    (m.storeBe p x).bits = Field.put ⟨8 * p, w⟩ x.toNat m.bits := by
  funext k
  unfold bits storeBe
  by_cases h : p ≤ k / 8 ∧ k / 8 < p + w / 8
  · have hin : Field.Has ⟨8 * p, w⟩ k := by
      unfold Field.Has
      dsimp only
      omega
    have hpos : w - 8 - 8 * (k / 8 - p) + (7 - k % 8) = 8 * p + w - 1 - k := by omega
    have hbit : 7 - k % 8 < 8 := by omega
    rw [if_pos h, Field.put_of_has hin, BitVec.getLsbD_extractLsb', decide_eq_true hbit,
      Bool.true_and, hpos, BitVec.testBit_toNat]
  · have hout : ¬ Field.Has ⟨8 * p, w⟩ k := by
      unfold Field.Has
      dsimp only
      omega
    rw [if_neg h, Field.put_of_not_has hout]

theorem bits_zero : bits (fun _ => 0) = .zero := by
  funext k
  exact BitVec.getLsbD_zero

/-- A message laid down in memory. -/
def ofBits (b : Bits) : ByteMem := fun a => BitVec.ofNat 8 (Field.get ⟨8 * a, 8⟩ b)

@[simp] theorem bits_ofBits (b : Bits) : (ofBits b).bits = b := by
  funext k
  have hbit : 7 - k % 8 < 8 := by omega
  have hpos : 8 * (k / 8) + 8 - 1 - (7 - k % 8) = k := by omega
  unfold bits ofBits
  rw [BitVec.getLsbD_ofNat, decide_eq_true hbit, Bool.true_and, Field.testBit_get]
  dsimp only
  rw [decide_eq_true hbit, Bool.true_and, hpos]

end ByteMem
