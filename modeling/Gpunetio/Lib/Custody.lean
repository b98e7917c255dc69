import Mathlib.Data.List.Perm.Basic

/-!
# Resources in custody

A program acquires resources and releases them one by one. A release may fail, and a release of a
resource that is not held, because it is of another kind, released before or never acquired, is a
misuse. What is held is a multiset, kept as a list with the newest in front.

* `Store`, `Store.acquire`, `Store.acquireAll`, `Store.release`, `Store.releaseAll`;
* **`Store.releaseAll_acquireAll`**: releasing what has come last, with nothing said of what was
  held before;
* `Store.Holds`: nothing has been misused and exactly these resources are held;
* `Store.Holds.acquire`, **`Store.Holds.releaseAll`**: releasing resources that are held leaves the
  others and those whose release fails; `Store.Holds.releaseAll_iff`;
* resources in hand and on the accounts of some owners: `perm_open`, `perm_close`, `perm_credit`.
-/

namespace Custody

/-- The resources held, and whether a release was a misuse. -/
structure Store (R : Type*) where
  held : List R
  misuse : Bool

namespace Store

variable {R : Type*}

/-- Nothing is held. -/
def empty : Store R := ⟨[], false⟩

/-- Acquire a resource. -/
def acquire (r : R) (s : Store R) : Store R := { s with held := r :: s.held }

/-- Acquire some resources, the first of them last. -/
def acquireAll (l : List R) (s : Store R) : Store R := { s with held := l ++ s.held }

/-- Exactly these resources are held. -/
structure Holds (s : Store R) (l : List R) : Prop where
  held : s.held.Perm l
  misuse : s.misuse = false

variable {s : Store R} {l l' : List R} {r : R}

theorem Holds.acquire (h : s.Holds l) : (s.acquire r).Holds (r :: l) :=
  ⟨h.held.cons r, h.misuse⟩

theorem Holds.of_perm (h : s.Holds l) (hp : l.Perm l') : s.Holds l' :=
  ⟨h.held.trans hp, h.misuse⟩

theorem Holds.acquireAll (h : s.Holds l) : (s.acquireAll l').Holds (l' ++ l) :=
  ⟨h.held.append_left l', h.misuse⟩

theorem Holds.length_eq (h : s.Holds l) : s.held.length = l.length := h.held.length_eq

theorem length_acquireAll : (s.acquireAll l).held.length = l.length + s.held.length :=
  List.length_append

theorem acquireAll_eq_self : s.acquireAll l = s ↔ l = [] := by
  refine ⟨fun h => ?_, fun h => h ▸ rfl⟩
  have hlen := length_acquireAll (s := s) (l := l)
  rw [h] at hlen
  exact List.eq_nil_of_length_eq_zero (by omega)

variable [DecidableEq R]

/-- Release a resource; `ok` is the outcome. -/
def release (r : R) (ok : Bool) (s : Store R) : Store R :=
  if r ∈ s.held then if ok then { s with held := s.held.erase r } else s
  else { s with misuse := true }

/-- Release some resources in turn. -/
def releaseAll (rs : List (R × Bool)) (s : Store R) : Store R :=
  rs.foldl (fun s x => s.release x.1 x.2) s

theorem Holds.release (h : s.Holds (r :: l)) : (s.release r true).Holds l := by
  have hmem : r ∈ s.held := h.held.mem_iff.2 List.mem_cons_self
  rw [Store.release, if_pos hmem, if_pos rfl]
  refine ⟨?_, h.misuse⟩
  have herase := h.held.erase r
  rwa [List.erase_cons_head] at herase

theorem Holds.release_fails (h : s.Holds (r :: l)) : (s.release r false).Holds (r :: l) := by
  have hmem : r ∈ s.held := h.held.mem_iff.2 List.mem_cons_self
  rw [Store.release, if_pos hmem, if_neg Bool.false_ne_true]
  exact h

/-- **Releasing what is held.** -/
theorem Holds.releaseAll {rs : List (R × Bool)} (h : s.Holds (rs.map Prod.fst ++ l)) :
    (s.releaseAll rs).Holds ((rs.filter fun x => x.2 = false).map Prod.fst ++ l) := by
  induction rs generalizing s l with
  | nil => exact h
  | cons x rs ih =>
    obtain ⟨r, ok⟩ := x
    cases ok with
    | true =>
      have hr : s.Holds (r :: (rs.map Prod.fst ++ l)) := h
      exact ih hr.release
    | false =>
      have hr : s.Holds (r :: (rs.map Prod.fst ++ l)) := h
      have hskip := ih (l := r :: l) (hr.release_fails.of_perm List.perm_middle.symm)
      exact hskip.of_perm List.perm_middle

/-- What comes last is released first. -/
theorem release_acquire (r : R) (ok : Bool) (s : Store R) :
    (s.acquire r).release r ok = if ok then s else s.acquire r := by
  simp [release, acquire]

/-- Something else has come in between. -/
theorem release_acquireAll {x : R} (h : x ∉ l) :
    ((s.acquire x).acquireAll l).release x true = s.acquireAll l := by
  simp [release, acquireAll, acquire, List.erase_append_right, h]

/-- **Releasing what has come last.** -/
theorem releaseAll_acquireAll {rs : List (R × Bool)} (h : (rs.map Prod.fst).Nodup) :
    (s.acquireAll (rs.map Prod.fst)).releaseAll rs =
      s.acquireAll ((rs.filter fun x => x.2 = false).map Prod.fst) := by
  -- what is left of the resources released so far comes before the others
  suffices hkept : ∀ kept : List R, kept.Disjoint (rs.map Prod.fst) →
      (s.acquireAll (kept ++ rs.map Prod.fst)).releaseAll rs =
        s.acquireAll (kept ++ (rs.filter fun x => x.2 = false).map Prod.fst) from
    hkept [] (List.disjoint_nil_left _)
  induction rs with
  | nil => exact fun _ _ => rfl
  | cons x rs ih =>
    obtain ⟨r, ok⟩ := x
    intro kept hd
    rw [List.map_cons, List.nodup_cons] at h
    rw [List.map_cons, List.disjoint_cons_right] at hd
    cases ok with
    | true =>
      have hrel : (s.acquireAll (kept ++ r :: rs.map Prod.fst)).release r true =
          s.acquireAll (kept ++ rs.map Prod.fst) := by
        simp [release, acquireAll, List.erase_append_right, hd.1]
      exact (congrArg _ hrel).trans (ih h.2 kept hd.2)
    | false =>
      have hrel : (s.acquireAll (kept ++ r :: rs.map Prod.fst)).release r false =
          s.acquireAll (kept ++ [r] ++ rs.map Prod.fst) := by
        simp [release, acquireAll]
      refine (congrArg _ hrel).trans ((ih h.2 (kept ++ [r]) ?_).trans ?_)
      · exact List.disjoint_append_left.2 ⟨hd.2, List.singleton_disjoint.2 h.1⟩
      · simp

/-- Nothing of it is left exactly if no release fails. -/
theorem releaseAll_eq_iff {rs : List (R × Bool)} (h : (rs.map Prod.fst).Nodup) :
    (s.acquireAll (rs.map Prod.fst)).releaseAll rs = s ↔ ∀ x ∈ rs, x.2 = true := by
  rw [releaseAll_acquireAll h, acquireAll_eq_self]
  simp [List.filter_eq_nil_iff]

/-- Nothing of it is left exactly if no release fails. -/
theorem Holds.releaseAll_iff {l : List R} (rs : List (R × Bool))
    (h : s.Holds (rs.map Prod.fst ++ l)) :
    (s.releaseAll rs).Holds l ↔ ∀ x ∈ rs, x.2 = true := by
  have hrel := h.releaseAll
  have hnil : (rs.filter fun x => x.2 = false) = [] ↔ ∀ x ∈ rs, x.2 = true := by
    simp [List.filter_eq_nil_iff]
  rw [← hnil]
  constructor
  · intro hl
    have hlen := hrel.length_eq.symm.trans hl.length_eq
    rw [List.length_append, List.length_map] at hlen
    exact List.eq_nil_of_length_eq_zero (by omega)
  · intro hempty
    rwa [hempty] at hrel

/-- A release takes at most one resource away. -/
theorem length_le_release (ok : Bool) : s.held.length ≤ (s.release r ok).held.length + 1 := by
  unfold release
  split_ifs with hmem
  · rw [List.length_erase_of_mem hmem]
    omega
  · exact Nat.le_succ _
  · exact Nat.le_succ _

end Store

/-! ## Accounts -/

section Accounts

variable {A R : Type*} {f g : A → List R} {l : List A} {t : List R} {w : A}

/-- What is in hand is put on the account of a new owner. -/
theorem perm_open {x : List R} (hx : g w = x) (hother : ∀ v ∈ l, g v = f v) :
    (x ++ t ++ l.flatMap f).Perm (t ++ (w :: l).flatMap g) := by
  rw [List.flatMap_cons, hx, List.flatMap_congr hother, ← List.append_assoc]
  exact List.perm_append_comm.append_right _

variable [DecidableEq A]

/-- An owner leaves, and what it owns is in hand. -/
theorem perm_close (hw : w ∈ l) :
    (t ++ l.flatMap f).Perm (f w ++ t ++ (l.erase w).flatMap f) := by
  have hl := (List.perm_cons_erase hw).flatMap_right f
  rw [List.flatMap_cons] at hl
  have happ := hl.append_left t
  rw [← List.append_assoc] at happ
  exact happ.trans (List.perm_append_comm.append_right _)

/-- Something in hand is put on the account of an owner. -/
theorem perm_credit (hl : l.Nodup) (hw : w ∈ l) {x : R} (hx : g w = x :: f w)
    (hother : ∀ v ∈ l, v ≠ w → g v = f v) :
    (x :: t ++ l.flatMap f).Perm (t ++ l.flatMap g) := by
  have hclose : (x :: (t ++ l.flatMap f)).Perm (x :: (f w ++ t ++ (l.erase w).flatMap f)) :=
    (perm_close hw).cons x
  have hopen : (x :: f w ++ t ++ (l.erase w).flatMap f).Perm
      (t ++ (w :: l.erase w).flatMap g) :=
    perm_open hx fun v hv =>
      hother v (List.mem_of_mem_erase hv) ((hl.mem_erase_iff).1 hv).1
  have hback := ((List.perm_cons_erase hw).flatMap_right g).append_left t
  exact hclose.trans (hopen.trans hback.symm)

end Accounts

end Custody
