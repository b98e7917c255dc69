import Gpunetio.Lib.Transition
import Mathlib.Data.Nat.Notation
import Mathlib.Order.Lattice
import Mathlib.Order.Defs.LinearOrder

/-!
# Ranges handed out by a counter

Agents reserve ranges of consecutive indices by fetch-and-add, declare them ready in the order of
reservation by passing a baton, and submit them by raising a maximum. Three counters describe the
state: what is reserved, what is ready and what is submitted.

* `Chain`: the ranges reserved, newest first, follow each other without a gap; `Chain.cover`,
  `Chain.unique`, `Chain.apart`;
* `Ledger`: the counters, the ranges reserved, and per agent the range still open or still to be
  submitted;
* `Ledger.Inv`, `Ledger.Inv.reserve`, `Ledger.Inv.mark`, `Ledger.Inv.submit`;
* **`Ledger.Inv.oldest`**: while a range is open, the oldest open one holds the baton.
-/

namespace Ledger

variable {ρ : Type*} {lo hi : ρ → ℕ}

/-- The ranges cover the indices below `n`, newest first, each ending where the next begins. -/
def Chain (lo hi : ρ → ℕ) : List ρ → ℕ → Prop
  | [], n => n = 0
  | r :: rs, n => hi r = n ∧ lo r < n ∧ Chain lo hi rs (lo r)

namespace Chain

variable {rs : List ρ} {n i : ℕ} {r r' : ρ}

theorem lt (h : Chain lo hi rs n) (hr : r ∈ rs) : lo r < hi r := by
  induction rs generalizing n with
  | nil => cases hr
  | cons a rs ih =>
    obtain ⟨rfl, hlt, htail⟩ := h
    obtain rfl | hr := List.mem_cons.1 hr
    · exact hlt
    · exact ih htail hr

theorem hi_le (h : Chain lo hi rs n) (hr : r ∈ rs) : hi r ≤ n := by
  induction rs generalizing n with
  | nil => cases hr
  | cons a rs ih =>
    obtain ⟨rfl, hlt, htail⟩ := h
    obtain rfl | hr := List.mem_cons.1 hr
    · exact le_rfl
    · exact (ih htail hr).trans hlt.le

/-- Every index below `n` lies in a range. -/
theorem cover (h : Chain lo hi rs n) (hi' : i < n) : ∃ r ∈ rs, lo r ≤ i ∧ i < hi r := by
  induction rs generalizing n with
  | nil => exact absurd h (by simp only [Chain]; omega)
  | cons a rs ih =>
    obtain ⟨rfl, hlt, htail⟩ := h
    rcases Nat.lt_or_ge i (lo a) with hia | hia
    · obtain ⟨r, hr, hri⟩ := ih htail hia
      exact ⟨r, List.mem_cons_of_mem _ hr, hri⟩
    · exact ⟨a, List.mem_cons_self, hia, hi'⟩

/-- Two ranges are the same or apart. -/
theorem apart (h : Chain lo hi rs n) (hr : r ∈ rs) (hr' : r' ∈ rs) :
    r = r' ∨ hi r ≤ lo r' ∨ hi r' ≤ lo r := by
  induction rs generalizing n with
  | nil => cases hr
  | cons a rs ih =>
    obtain ⟨rfl, hlt, htail⟩ := h
    rcases List.mem_cons.1 hr with rfl | hrs <;> rcases List.mem_cons.1 hr' with rfl | hrs'
    · exact .inl rfl
    · exact .inr (.inr (htail.hi_le hrs'))
    · exact .inr (.inl (htail.hi_le hrs))
    · exact ih htail hrs hrs'

/-- An index lies in one range only. -/
theorem unique (h : Chain lo hi rs n) (hr : r ∈ rs) (hr' : r' ∈ rs) (hri : lo r ≤ i ∧ i < hi r)
    (hri' : lo r' ≤ i ∧ i < hi r') : r = r' := by
  obtain heq | hle | hle := h.apart hr hr'
  · exact heq
  · omega
  · omega

/-- The ranges are disjoint, each starting where or after any older one ends. -/
theorem pairwise (h : Chain lo hi rs n) : rs.Pairwise fun r r' => hi r' ≤ lo r := by
  induction rs generalizing n with
  | nil => exact .nil
  | cons a rs ih =>
    obtain ⟨-, -, htail⟩ := h
    exact List.pairwise_cons.2 ⟨fun r hr => htail.hi_le hr, ih htail⟩

end Chain

end Ledger

/-- The counters and ranges. `openRange a` is what agent `a` has reserved and not yet declared
ready, `readyRange a` what it has declared ready and not yet submitted. -/
structure Ledger (A ρ : Type*) where
  rsvd : ℕ
  ready : ℕ
  submitted : ℕ
  ranges : List ρ
  openRange : A → Option ρ
  readyRange : A → Option ρ

namespace Ledger

variable {A ρ : Type*} {lo hi : ρ → ℕ} {agent : ρ → A}

/-- Every range is open, or ready, or submitted; all below `ready` are no longer open, and all ready
ones but those that wait for their agent are submitted. -/
structure Inv (lo hi : ρ → ℕ) (agent : ρ → A) (l : Ledger A ρ) : Prop where
  chain : Chain lo hi l.ranges l.rsvd
  ready_le : l.ready ≤ l.rsvd
  submitted_le : l.submitted ≤ l.ready
  isOpen : ∀ a r, l.openRange a = some r → r ∈ l.ranges ∧ agent r = a ∧ l.ready ≤ lo r
  isReady : ∀ a r, l.readyRange a = some r → r ∈ l.ranges ∧ agent r = a ∧ hi r ≤ l.ready
  marked : ∀ r ∈ l.ranges, hi r ≤ l.ready ∨ l.openRange (agent r) = some r
  rung : ∀ r ∈ l.ranges, hi r ≤ l.ready →
    hi r ≤ l.submitted ∨ l.readyRange (agent r) = some r

namespace Inv

variable {l : Ledger A ρ} {a : A} {r : ρ} {i : ℕ}

/-- Nothing reserved. -/
theorem init (h₁ : l.rsvd = 0) (h₂ : l.ready = 0) (h₃ : l.submitted = 0) (h₄ : l.ranges = [])
    (h₅ : ∀ a, l.openRange a = none) (h₆ : ∀ a, l.readyRange a = none) : l.Inv lo hi agent where
  chain := by rw [h₄, h₁]; rfl
  ready_le := by omega
  submitted_le := by omega
  isOpen := by simp [h₅]
  isReady := by simp [h₆]
  marked := by simp [h₄]
  rung := by simp [h₄]

/-- An index that is ready belongs to a range that is. -/
theorem ready_range (h : l.Inv lo hi agent) (hi' : i < l.ready) :
    ∃ r ∈ l.ranges, (lo r ≤ i ∧ i < hi r) ∧ hi r ≤ l.ready := by
  obtain ⟨r, hr, hri⟩ := h.chain.cover (hi'.trans_le h.ready_le)
  refine ⟨r, hr, hri, (h.marked r hr).resolve_right fun ho => ?_⟩
  have := (h.isOpen _ r ho).2.2
  omega

/-- A range that is ready is not open. -/
theorem not_open (h : l.Inv lo hi agent) (hr : r ∈ l.ranges) (hle : hi r ≤ l.ready) (a : A) :
    l.openRange a ≠ some r := by
  intro ho
  have hlt := h.chain.lt hr
  have := (h.isOpen a r ho).2.2
  omega

/-- **The oldest open range holds the baton.** -/
theorem oldest (h : l.Inv lo hi agent) (ho : l.ready < l.rsvd) :
    ∃ r ∈ l.ranges, l.openRange (agent r) = some r ∧ lo r = l.ready := by
  obtain ⟨r, hr, hri⟩ := h.chain.cover ho
  have hop : l.openRange (agent r) = some r := (h.marked r hr).resolve_left (by omega)
  exact ⟨r, hr, hop, le_antisymm hri.1 (h.isOpen _ r hop).2.2⟩

/-- Something is open while not all that is reserved is ready. -/
theorem ready_lt (h : l.Inv lo hi agent) (ho : l.openRange a = some r) : l.ready < l.rsvd := by
  obtain ⟨hr, -, hle⟩ := h.isOpen a r ho
  exact (hle.trans_lt (h.chain.lt hr)).trans_le (h.chain.hi_le hr)

/-- Some agent still has to submit while not all that is ready is submitted. -/
theorem unsubmitted (h : l.Inv lo hi agent) (hlt : l.submitted < l.ready) :
    ∃ r ∈ l.ranges, l.readyRange (agent r) = some r := by
  obtain ⟨r, hr, hri, hle⟩ := h.ready_range hlt
  exact ⟨r, hr, (h.rung r hr hle).resolve_left (by omega)⟩

variable [DecidableEq A]

/-- An agent reserves the next range. -/
theorem reserve (h : l.Inv lo hi agent) (ha : l.openRange a = none) (hra : agent r = a)
    (hlo : lo r = l.rsvd) (hhi : lo r < hi r) :
    Inv lo hi agent { l with
      rsvd := hi r, ranges := r :: l.ranges
      openRange := Function.update l.openRange a (some r) } where
  chain := ⟨rfl, hhi, hlo ▸ h.chain⟩
  ready_le := h.ready_le.trans (hlo ▸ hhi.le)
  submitted_le := h.submitted_le
  isOpen := by
    intro b r' hb
    obtain ⟨rfl, hb'⟩ | ⟨-, hb⟩ := Transition.update_eq_some.1 hb
    · obtain rfl := Option.some.inj hb'
      exact ⟨List.mem_cons_self, hra, hlo ▸ h.ready_le⟩
    · exact ⟨List.mem_cons_of_mem _ (h.isOpen b r' hb).1, (h.isOpen b r' hb).2⟩
  isReady := fun b r' hb => ⟨List.mem_cons_of_mem _ (h.isReady b r' hb).1, (h.isReady b r' hb).2⟩
  marked := by
    intro r' hr'
    obtain rfl | hr' := List.mem_cons.1 hr'
    · exact .inr (by simp [hra])
    · refine (h.marked r' hr').imp_right fun ho => ?_
      have hne : agent r' ≠ a := fun heq => by rw [heq, ha] at ho; cases ho
      simpa [Function.update_of_ne hne] using ho
  rung := by
    intro r' hr' hle
    obtain rfl | hr' := List.mem_cons.1 hr'
    · have := h.ready_le
      exact absurd hle (by simp only; omega)
    · exact h.rung r' hr' hle

/-- The agent whose range is next declares it ready. -/
theorem mark (h : l.Inv lo hi agent) (ha : l.openRange a = some r) (hready : l.ready = lo r)
    (hidle : l.readyRange a = none) :
    Inv lo hi agent { l with
      ready := hi r
      openRange := Function.update l.openRange a none
      readyRange := Function.update l.readyRange a (some r) } := by
  obtain ⟨hr, rfl, -⟩ := h.isOpen a r ha
  have hlt := h.chain.lt hr
  have hopen : ∀ b r', Function.update l.openRange (agent r) none b = some r' →
      b ≠ agent r ∧ l.openRange b = some r' := fun b r' hb => by
    obtain ⟨-, hb⟩ | hb := Transition.update_eq_some.1 hb
    · cases hb
    · exact hb
  refine
    { chain := h.chain
      ready_le := h.chain.hi_le hr
      submitted_le := h.submitted_le.trans (by simp only; omega)
      isOpen := ?_
      isReady := ?_
      marked := ?_
      rung := ?_ }
  · intro b r' hb
    obtain ⟨hba, hb⟩ := hopen b r' hb
    obtain ⟨hr', rfl, hle⟩ := h.isOpen b r' hb
    refine ⟨hr', rfl, ?_⟩
    have hlt' := h.chain.lt hr'
    obtain rfl | hap | hap := h.chain.apart hr hr'
    · exact (hba rfl).elim
    · exact hap
    · omega
  · intro b r' hb
    obtain ⟨rfl, hb'⟩ | ⟨-, hb⟩ := Transition.update_eq_some.1 hb
    · obtain rfl := Option.some.inj hb'
      exact ⟨hr, rfl, le_rfl⟩
    · obtain ⟨hr', hag, hle⟩ := h.isReady b r' hb
      exact ⟨hr', hag, hle.trans (by simp only; omega)⟩
  · intro r' hr'
    obtain hle | ho := h.marked r' hr'
    · exact .inl (hle.trans (by simp only; omega))
    · rcases eq_or_ne (agent r') (agent r) with heq | hne
      · rw [heq, ha, Option.some.injEq] at ho
        exact .inl (ho ▸ le_rfl)
      · exact .inr (by simpa [Function.update_of_ne hne] using ho)
  · intro r' hr' hle
    obtain rfl | hap | hap := h.chain.apart hr hr'
    · exact .inr (by simp)
    · have := h.chain.lt hr'
      exact absurd hle (by simp only; omega)
    · refine (h.rung r' hr' (hready ▸ hap)).imp_right fun hp => ?_
      have hne : agent r' ≠ agent r := fun heq => by rw [heq, hidle] at hp; cases hp
      simpa [Function.update_of_ne hne] using hp

/-- An agent submits its range: the maximum is raised to the end of the range. -/
theorem submit (h : l.Inv lo hi agent) (ha : l.readyRange a = some r) :
    Inv lo hi agent { l with
      submitted := max l.submitted (hi r)
      readyRange := Function.update l.readyRange a none } := by
  obtain ⟨hr, rfl, hle⟩ := h.isReady a r ha
  refine
    { chain := h.chain
      ready_le := h.ready_le
      submitted_le := max_le h.submitted_le hle
      isOpen := h.isOpen
      isReady := ?_
      marked := h.marked
      rung := ?_ }
  · intro b r' hb
    obtain ⟨-, hb⟩ | ⟨-, hb⟩ := Transition.update_eq_some.1 hb
    · cases hb
    · exact h.isReady b r' hb
  · intro r' hr' hle'
    obtain hsub | hp := h.rung r' hr' hle'
    · exact .inl (hsub.trans (le_max_left _ _))
    · rcases eq_or_ne (agent r') (agent r) with heq | hne
      · rw [heq, ha, Option.some.injEq] at hp
        exact .inl (hp ▸ le_max_right _ _)
      · exact .inr (by simpa [Function.update_of_ne hne] using hp)

end Inv

end Ledger
