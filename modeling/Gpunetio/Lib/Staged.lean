import Gpunetio.Lib.Teardown
import Mathlib.Data.List.TakeWhile

/-!
# Objects that are built in stages

A constructor acquires the parts of an object one by one, with checks in between, and stops at the
first failure. A destructor gives back the parts that are there, in an order of its own, and stops
where one is refused; it can be called again.

* `Stage`, `build`, `Holder`: the constructor; `acquired`, `succeeds`: what becomes of it;
* `tearDown`, `kept`: the destructor, and what it leaves; **`tearDown_perm`**, `tearDown_eq_nil`;
* **`build_holds`**, **`tearDown_holds`**: the parts of the object are always those that are held;
* `build_early`, **`tearDown_early`**: nothing is given back while something refers to it.
-/

namespace Staged

open Custody Teardown

/-- A stage of a constructor: a check, or the acquisition of a part; `ok` is the outcome. -/
inductive Stage (P : Type*)
  | check (ok : Bool)
  | acquire (p : P) (ok : Bool)

/-- The parts of an object, and the site that they are on. -/
structure Holder (P R : Type*) where
  parts : List P
  site : Site R

section Build

variable {P R : Type*} (res : P → R)

/-- The constructor, and whether it comes to its end. -/
def build : List (Stage P) → Holder P R → Bool × Holder P R
  | [], h => (true, h)
  | .check ok :: l, h => if ok then build l h else (false, h)
  | .acquire p ok :: l, h =>
    if ok then build l ⟨p :: h.parts, h.site.acquire (res p)⟩ else (false, h)

/-- The parts that are acquired. -/
def acquired : List (Stage P) → List P
  | [] => []
  | .check ok :: l => if ok then acquired l else []
  | .acquire p ok :: l => if ok then p :: acquired l else []

/-- No stage fails. -/
def succeeds : List (Stage P) → Bool
  | [] => true
  | .check ok :: l => ok && succeeds l
  | .acquire _ ok :: l => ok && succeeds l

/-- The parts that the stages are about. -/
def partsOf : List (Stage P) → List P
  | [] => []
  | .check _ :: l => partsOf l
  | .acquire p _ :: l => p :: partsOf l

variable (l : List (Stage P)) (h : Holder P R)

theorem acquired_sublist : (acquired l).Sublist (partsOf l) := by
  induction l with
  | nil => exact .slnil
  | cons x l ih =>
    cases x with
    | check ok =>
      cases ok with
      | true => exact ih
      | false => exact List.nil_sublist _
    | acquire p ok =>
      cases ok with
      | true => exact ih.cons_cons p
      | false => exact List.nil_sublist _

theorem succeeds_append (l' : List (Stage P)) :
    succeeds (l ++ l') = (succeeds l && succeeds l') := by
  induction l with
  | nil => rfl
  | cons x l ih =>
    rcases x with ok | ⟨p, ok⟩
    · simp only [List.cons_append, succeeds, ih, Bool.and_assoc]
    · simp only [List.cons_append, succeeds, ih, Bool.and_assoc]

theorem build_fst : (build res l h).1 = succeeds l := by
  induction l generalizing h with
  | nil => rfl
  | cons x l ih =>
    rcases x with (_ | _) | ⟨p, _ | _⟩
    · rfl
    · exact ih _
    · rfl
    · exact ih _

theorem build_parts : (build res l h).2.parts = (acquired l).reverse ++ h.parts := by
  induction l generalizing h with
  | nil => rfl
  | cons x l ih =>
    rcases x with (_ | _) | ⟨p, _ | _⟩
    · rfl
    · exact ih _
    · rfl
    · show (build res l ⟨p :: h.parts, _⟩).2.parts = (p :: acquired l).reverse ++ h.parts
      rw [ih, List.reverse_cons, List.append_assoc]
      rfl

theorem build_early : (build res l h).2.site.early = h.site.early := by
  induction l generalizing h with
  | nil => rfl
  | cons x l ih =>
    rcases x with (_ | _) | ⟨p, _ | _⟩
    · rfl
    · exact ih _
    · rfl
    · exact ih _

/-- **What a constructor has acquired** are the parts of the object. -/
theorem build_holds {t : List R} (hs : h.site.store.Holds (h.parts.map res ++ t)) :
    (build res l h).2.site.store.Holds ((build res l h).2.parts.map res ++ t) := by
  induction l generalizing h with
  | nil => exact hs
  | cons x l ih =>
    rcases x with (_ | _) | ⟨p, _ | _⟩
    · exact hs
    · exact ih _ hs
    · exact hs
    · exact ih ⟨p :: h.parts, h.site.acquire (res p)⟩ hs.acquire

end Build

section TearDown

variable {P R : Type*} [DecidableEq P] [DecidableEq R] (res : P → R) (refers : R → R → Prop)
  [DecidableRel refers]

/-- The destructor, and whether it comes to its end; `ok` are the outcomes. -/
def tearDown (ok : P → Bool) : List P → Holder P R → Bool × Holder P R
  | [], h => (true, h)
  | p :: l, h =>
    if p ∈ h.parts then
      if ok p then tearDown ok l ⟨h.parts.erase p, h.site.release refers (res p)⟩ else (false, h)
    else tearDown ok l h

/-- The parts that the destructor leaves: those from the first that is refused on. -/
def kept (ok : P → Bool) (order parts : List P) : List P :=
  (order.filter (· ∈ parts)).dropWhile ok

variable {res refers} {ok : P → Bool} {order parts : List P} {h : Holder P R} {t : List R} {p : P}

theorem mem_of_mem_kept (hp : p ∈ kept ok order parts) : p ∈ parts := by
  have hmem := (List.dropWhile_sublist _).subset hp
  simpa using (List.mem_filter.1 hmem).2

/-- Nothing is left exactly if nothing is refused. -/
theorem kept_eq_nil : kept ok order parts = [] ↔ ∀ p ∈ order, p ∈ parts → ok p = true := by
  rw [kept, List.dropWhile_eq_nil_iff]
  simp

theorem filter_mem_erase (hp : p ∉ order) :
    order.filter (· ∈ parts.erase p) = order.filter (· ∈ parts) := by
  refine List.filter_congr fun x hx => ?_
  have hne : x ≠ p := fun heq => hp (heq ▸ hx)
  simp [List.mem_erase_of_ne hne]

/-- **What the destructor leaves.** -/
theorem tearDown_perm (ho : order.Nodup) (hn : h.parts.Nodup) (hsub : ∀ p ∈ h.parts, p ∈ order) :
    (tearDown res refers ok order h).2.parts.Perm (kept ok order h.parts) := by
  induction order generalizing h with
  | nil =>
    have hnil : h.parts = [] := List.eq_nil_iff_forall_not_mem.2 fun p hp => nomatch hsub p hp
    show h.parts.Perm _
    rw [hnil]
    exact .refl _
  | cons p l ih =>
    rw [List.nodup_cons] at ho
    unfold tearDown
    by_cases hp : p ∈ h.parts
    · have hfilter : (p :: l).filter (· ∈ h.parts) = p :: l.filter (· ∈ h.parts) :=
        List.filter_cons_of_pos (by simpa using hp)
      rw [if_pos hp]
      cases hok : ok p with
      | true =>
        rw [if_pos rfl, kept, hfilter, List.dropWhile_cons_of_pos hok]
        have herase : ∀ x ∈ h.parts.erase p, x ∈ l := by
          intro x hx
          obtain ⟨hne, hx⟩ := hn.mem_erase_iff.1 hx
          exact (List.mem_cons.1 (hsub x hx)).resolve_left hne
        have hrest := ih (h := ⟨h.parts.erase p, h.site.release refers (res p)⟩) ho.2
          (hn.erase p) herase
        rwa [kept, filter_mem_erase ho.1] at hrest
      | false =>
        rw [if_neg Bool.false_ne_true, kept, hfilter, List.dropWhile_cons_of_neg (by simp [hok]),
          ← hfilter]
        refine (List.perm_ext_iff_of_nodup hn ((List.nodup_cons.2 ho).filter _)).2 fun x => ?_
        simp only [List.mem_filter, decide_eq_true_eq]
        exact ⟨fun hx => ⟨hsub x hx, hx⟩, fun hx => hx.2⟩
    · have hfilter : (p :: l).filter (· ∈ h.parts) = l.filter (· ∈ h.parts) :=
        List.filter_cons_of_neg (by simpa using hp)
      rw [if_neg hp, kept, hfilter]
      refine ih ho.2 hn fun x hx => (List.mem_cons.1 (hsub x hx)).resolve_left ?_
      rintro rfl
      exact hp hx

theorem tearDown_eq_nil (ho : order.Nodup) (hn : h.parts.Nodup)
    (hsub : ∀ p ∈ h.parts, p ∈ order) :
    (tearDown res refers ok order h).2.parts = [] ↔ kept ok order h.parts = [] := by
  have hperm : (tearDown res refers ok order h).2.parts.Perm (kept ok order h.parts) :=
    tearDown_perm ho hn hsub
  constructor
  · intro hnil
    exact List.nil_perm.1 (hnil ▸ hperm)
  · intro hnil
    exact List.perm_nil.1 (hnil ▸ hperm)

/-- A destructor that comes to its end leaves nothing. -/
theorem tearDown_fst (ho : order.Nodup) (hn : h.parts.Nodup) (hsub : ∀ p ∈ h.parts, p ∈ order)
    (hfst : (tearDown res refers ok order h).1 = true) :
    (tearDown res refers ok order h).2.parts = [] := by
  induction order generalizing h with
  | nil => exact List.eq_nil_iff_forall_not_mem.2 fun p hp => nomatch hsub p hp
  | cons p l ih =>
    rw [List.nodup_cons] at ho
    unfold tearDown at hfst ⊢
    by_cases hp : p ∈ h.parts
    · rw [if_pos hp] at hfst ⊢
      cases hok : ok p with
      | true =>
        rw [hok, if_pos rfl] at hfst
        rw [if_pos rfl]
        refine ih (h := ⟨h.parts.erase p, h.site.release refers (res p)⟩) ho.2 (hn.erase p) ?_ hfst
        intro x hx
        obtain ⟨hne, hx⟩ := hn.mem_erase_iff.1 hx
        exact (List.mem_cons.1 (hsub x hx)).resolve_left hne
      | false =>
        rw [hok, if_neg Bool.false_ne_true] at hfst
        cases hfst
    · rw [if_neg hp] at hfst ⊢
      refine ih ho.2 hn (fun x hx => (List.mem_cons.1 (hsub x hx)).resolve_left ?_) hfst
      rintro rfl
      exact hp hx

theorem tearDown_sublist : (tearDown res refers ok order h).2.parts.Sublist h.parts := by
  induction order generalizing h with
  | nil => exact .refl _
  | cons p l ih =>
    unfold tearDown
    split_ifs with hp hok
    · exact ih.trans List.erase_sublist
    · exact .refl _
    · exact ih

/-- **What is held** are the parts that are left. -/
theorem tearDown_holds (hs : h.site.store.Holds (h.parts.map res ++ t)) :
    (tearDown res refers ok order h).2.site.store.Holds
      ((tearDown res refers ok order h).2.parts.map res ++ t) := by
  induction order generalizing h with
  | nil => exact hs
  | cons p l ih =>
    unfold tearDown
    split_ifs with hp hok
    · refine ih (h := ⟨h.parts.erase p, h.site.release refers (res p)⟩) ?_
      have hperm := ((List.perm_cons_erase hp).map res).append_right t
      exact (hs.of_perm hperm).release
    · exact hs
    · exact ih hs

/-- **Nothing is given back early** if no part refers to one before it in the order, nor does
anything else that is held. -/
theorem tearDown_early (he : h.site.early = false)
    (hs : h.site.store.Holds (h.parts.map res ++ t)) (hn : h.parts.Nodup)
    (hsub : ∀ p ∈ h.parts, p ∈ order) (hself : ∀ p, ¬ refers (res p) (res p))
    (hord : order.Pairwise fun a b => ¬ refers (res b) (res a))
    (ht : ∀ x ∈ t, ∀ p, ¬ refers x (res p)) :
    (tearDown res refers ok order h).2.site.early = false := by
  induction order generalizing h with
  | nil => exact he
  | cons p l ih =>
    rw [List.pairwise_cons] at hord
    unfold tearDown
    split_ifs with hp hok
    · have hnone : ∀ x ∈ h.site.store.held, ¬ refers x (res p) := by
        intro x hx
        obtain hx | hx := List.mem_append.1 (hs.held.mem_iff.1 hx)
        · obtain ⟨b, hb, rfl⟩ := List.mem_map.1 hx
          obtain rfl | hb := List.mem_cons.1 (hsub b hb)
          · exact hself b
          · exact hord.1 b hb
        · exact ht x hx p
      have hearly : (h.site.release refers (res p)).early = false :=
        Site.release_early he fun _ => hnone
      have hperm := ((List.perm_cons_erase hp).map res).append_right t
      refine ih (h := ⟨h.parts.erase p, h.site.release refers (res p)⟩) hearly
        (hs.of_perm hperm).release (hn.erase p) ?_ hord.2
      intro x hx
      obtain ⟨hne, hx⟩ := hn.mem_erase_iff.1 hx
      exact (List.mem_cons.1 (hsub x hx)).resolve_left hne
    · exact he
    · refine ih he hs hn (fun x hx => (List.mem_cons.1 (hsub x hx)).resolve_left ?_) hord.2
      rintro rfl
      exact hp hx

end TearDown

end Staged
