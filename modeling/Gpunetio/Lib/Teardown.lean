import Gpunetio.Lib.Custody

/-!
# Tearing down resources that refer to one another

Resources in custody may refer to others, which then have to stay until they are gone. A program
gives back a list of resources in turn.

* `Site`, `Site.acquire`, `Site.release`, `Site.releaseAll`: a store, and whether something was
  released while another resource still referred to it;
* `Site.mem_releaseAll`, **`Site.misuse_releaseAll_iff`**: what is left, and that everything is
  given back once;
* **`Site.releaseAll_early`**: nothing is released early if no resource refers to one that is held
  and listed before it; `Site.early_of_refers`; **`Site.releaseAll_early_iff`**.
-/

namespace Teardown

open Custody

variable {R : Type*}

/-- A store, and whether a release came too early. -/
structure Site (R : Type*) where
  store : Store R
  early : Bool

namespace Site

/-- Acquire a resource. -/
def acquire (r : R) (s : Site R) : Site R := { s with store := s.store.acquire r }

variable [DecidableEq R] (refers : R → R → Prop) [DecidableRel refers]

/-- Release a resource. It is too early if one that is held refers to it. -/
def release (r : R) (s : Site R) : Site R :=
  { store := s.store.release r true
    early := s.early || decide (r ∈ s.store.held ∧ ∃ x ∈ s.store.held, refers x r) }

/-- Release some resources in turn. -/
def releaseAll (rs : List R) (s : Site R) : Site R := rs.foldl (fun s r => s.release refers r) s

variable {s : Site R} {r x : R} {rs : List R}

@[simp] theorem releaseAll_nil : s.releaseAll refers [] = s := rfl

theorem releaseAll_cons :
    s.releaseAll refers (r :: rs) = (s.release refers r).releaseAll refers rs :=
  rfl

theorem releaseAll_append (rs' : List R) :
    s.releaseAll refers (rs ++ rs') = (s.releaseAll refers rs).releaseAll refers rs' :=
  List.foldl_append

/-! ## What is held -/

theorem mem_of_mem_release (h : x ∈ (s.release refers r).store.held) : x ∈ s.store.held := by
  unfold release Store.release at h
  by_cases hr : r ∈ s.store.held
  · simp only [hr, if_true] at h
    exact List.mem_of_mem_erase h
  · simpa only [hr, if_false] using h

theorem mem_release_of_ne (h : x ∈ s.store.held) (hne : x ≠ r) :
    x ∈ (s.release refers r).store.held := by
  unfold release Store.release
  by_cases hr : r ∈ s.store.held
  · simpa only [hr, if_true] using (List.mem_erase_of_ne hne).2 h
  · simpa only [hr, if_false] using h

theorem nodup_release (h : s.store.held.Nodup) : (s.release refers r).store.held.Nodup := by
  unfold release Store.release
  by_cases hr : r ∈ s.store.held
  · simpa only [hr, if_true] using h.erase r
  · simpa only [hr, if_false] using h

theorem notMem_release (h : s.store.held.Nodup) : r ∉ (s.release refers r).store.held := by
  unfold release Store.release
  by_cases hr : r ∈ s.store.held
  · simpa only [hr, if_true] using h.not_mem_erase
  · simpa only [hr, if_false] using hr

theorem mem_release (hn : s.store.held.Nodup) :
    x ∈ (s.release refers r).store.held ↔ x ∈ s.store.held ∧ x ≠ r := by
  constructor
  · intro h
    refine ⟨mem_of_mem_release refers h, ?_⟩
    rintro rfl
    exact notMem_release refers hn h
  · rintro ⟨h, hne⟩
    exact mem_release_of_ne refers h hne

/-- **What is left** is what was not given back. -/
theorem mem_releaseAll (hn : s.store.held.Nodup) :
    x ∈ (s.releaseAll refers rs).store.held ↔ x ∈ s.store.held ∧ x ∉ rs := by
  induction rs generalizing s with
  | nil => simp
  | cons a rs ih =>
    rw [releaseAll_cons, ih (nodup_release refers hn), mem_release refers hn, List.mem_cons, not_or,
      and_assoc]

/-! ## Misuse -/

theorem misuse_release : (s.release refers r).store.misuse = true ↔
    s.store.misuse = true ∨ r ∉ s.store.held := by
  unfold release Store.release
  by_cases hr : r ∈ s.store.held <;> simp [hr]

/-- **Exactly once**: nothing is misused if what is given back is held and listed once. -/
theorem misuse_releaseAll_iff (hn : s.store.held.Nodup) :
    (s.releaseAll refers rs).store.misuse = true ↔
      s.store.misuse = true ∨ ¬ (rs.Nodup ∧ ∀ r ∈ rs, r ∈ s.store.held) := by
  induction rs generalizing s with
  | nil => simp
  | cons a rs ih =>
    rw [releaseAll_cons, ih (nodup_release refers hn), misuse_release, List.nodup_cons]
    simp only [mem_release refers hn, List.forall_mem_cons]
    constructor
    · rintro ((h | h) | h)
      · exact Or.inl h
      · exact Or.inr fun hall => h hall.2.1
      · refine Or.inr fun hall => h ⟨hall.1.2, fun r hr => ⟨hall.2.2 r hr, ?_⟩⟩
        rintro rfl
        exact hall.1.1 hr
    · rintro (h | h)
      · exact Or.inl (Or.inl h)
      · by_cases ha : a ∈ s.store.held
        · refine Or.inr fun hall => h ⟨⟨fun hmem => (hall.2 a hmem).2 rfl, hall.1⟩, ha, ?_⟩
          exact fun r hr => (hall.2 r hr).1
        · exact Or.inl (Or.inr ha)

/-! ## Order -/

theorem early_releaseAll (h : s.early = true) : (s.releaseAll refers rs).early = true := by
  induction rs generalizing s with
  | nil => exact h
  | cons a rs ih => exact ih (by simp [release, h])

variable {refers} in
/-- A release is not too early if no resource refers to the one given back. -/
theorem release_early (hs : s.early = false)
    (h : r ∈ s.store.held → ∀ x ∈ s.store.held, ¬ refers x r) :
    (s.release refers r).early = false := by
  simp only [release, hs, Bool.false_or, decide_eq_false_iff_not]
  rintro ⟨hr, x, hx, hxr⟩
  exact h hr x hx hxr

/-- **Giving back in order.** -/
theorem releaseAll_early (hs : s.early = false) (hn : s.store.held.Nodup)
    (hord : rs.Pairwise fun a b => a ∈ s.store.held → ¬ refers b a)
    (hself : ∀ a ∈ rs, a ∈ s.store.held → ¬ refers a a)
    (hout : ∀ x ∈ s.store.held, x ∉ rs → ∀ a ∈ rs, a ∈ s.store.held → ¬ refers x a) :
    (s.releaseAll refers rs).early = false := by
  induction rs generalizing s with
  | nil => exact hs
  | cons a rs ih =>
    rw [List.pairwise_cons] at hord
    have hnone : a ∈ s.store.held → ∀ x ∈ s.store.held, ¬ refers x a := by
      intro ha x hx hxa
      by_cases hmem : x ∈ a :: rs
      · obtain rfl | hmem := List.mem_cons.1 hmem
        · exact hself x List.mem_cons_self ha hxa
        · exact hord.1 x hmem ha hxa
      · exact hout x hx hmem a List.mem_cons_self ha hxa
    refine ih (release_early hs hnone) (nodup_release refers hn) ?_ ?_ ?_
    · exact hord.2.imp fun h hb => h (mem_of_mem_release refers hb)
    · exact fun b hb hheld => hself b (List.mem_cons_of_mem _ hb) (mem_of_mem_release refers hheld)
    · intro x hx hxrs b hb hheld
      have hxa : x ≠ a := by
        rintro rfl
        exact notMem_release refers hn hx
      refine hout x (mem_of_mem_release refers hx) ?_ b (List.mem_cons_of_mem _ hb)
        (mem_of_mem_release refers hheld)
      rw [List.mem_cons, not_or]
      exact ⟨hxa, hxrs⟩

/-- A resource is released early if one that comes later in the list still refers to it. -/
theorem early_of_refers {pre post : List R} (hn : s.store.held.Nodup)
    (hr : r ∈ s.store.held) (hx : x ∈ s.store.held)
    (hrpre : r ∉ pre) (hxpre : x ∉ pre) (h : refers x r) :
    (s.releaseAll refers (pre ++ r :: post)).early = true := by
  rw [releaseAll_append, releaseAll_cons]
  refine early_releaseAll refers ?_
  have hr' := (mem_releaseAll refers hn).2 ⟨hr, hrpre⟩
  have hx' := (mem_releaseAll refers hn).2 ⟨hx, hxpre⟩
  simp only [release, Bool.or_eq_true, decide_eq_true_eq]
  exact Or.inr ⟨hr', x, hx', h⟩

/-- **Giving back in order**, exactly: where no resource refers to one that is listed before it,
what refers to a resource that is listed has to be listed too. -/
theorem releaseAll_early_iff (hs : s.early = false) (hn : s.store.held.Nodup)
    (hord : rs.Pairwise fun a b => a ∈ s.store.held → ¬ refers b a)
    (hself : ∀ a ∈ rs, a ∈ s.store.held → ¬ refers a a) :
    (s.releaseAll refers rs).early = false ↔
      ∀ x ∈ s.store.held, ∀ a ∈ rs, a ∈ s.store.held → refers x a → x ∈ rs := by
  constructor
  · intro he x hx a ha hheld href
    by_contra hnot
    obtain ⟨pre, post, rfl, hpre⟩ := List.eq_append_cons_of_mem ha
    have hxpre : x ∉ pre := fun hmem => hnot (List.mem_append_left _ hmem)
    rw [early_of_refers refers hn hheld hx hpre hxpre href] at he
    cases he
  · exact fun h => releaseAll_early refers hs hn hord hself fun x hx hxrs a ha hheld href =>
      hxrs (h x hx a ha hheld href)

end Site

end Teardown
