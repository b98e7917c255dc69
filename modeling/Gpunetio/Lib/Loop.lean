import Mathlib.Data.List.Nodup
import Mathlib.Logic.Function.Basic

/-!
# Loops over an array of cells

A loop goes through a list of entries and replaces, for each, the cell its key names.

* `each`: the loop; `each_of_notMem`, **`each_apply`**: with different keys each cell is replaced
  once, from what it was before the loop; **`each_of_mem`**, if a later entry for a cell undoes an
  earlier one, some entry of the cell decides, and **`each_of_last`** it is the last one;
* `collect`: the loop that also remembers a value read from each cell before it is replaced;
  `collect_fst`, `collect_snd`.
-/

namespace Loop

variable {K D E V : Type*} [DecidableEq K] (key : E → K) (f : E → D → D)

/-- For each entry, replace the cell of its key. -/
def each : List E → (K → D) → K → D
  | [], s => s
  | e :: es, s => each es (Function.update s (key e) (f e (s (key e))))

/-- For each entry, read a value from the cell of its key and replace the cell. -/
def collect (read : D → V) : List E → (K → D) → (K → D) × List V
  | [], s => (s, [])
  | e :: es, s =>
    let r := collect read es (Function.update s (key e) (f e (s (key e))))
    (r.1, read (s (key e)) :: r.2)

variable {key f} {es : List E} {s : K → D} {k : K}

theorem each_of_notMem (h : k ∉ es.map key) : each key f es s k = s k := by
  induction es generalizing s with
  | nil => rfl
  | cons e es ih =>
    rw [List.map_cons, List.mem_cons, not_or] at h
    rw [each, ih h.2, Function.update_of_ne h.1]

theorem each_apply (h : (es.map key).Nodup) {e : E} (he : e ∈ es) :
    each key f es s (key e) = f e (s (key e)) := by
  induction es generalizing s with
  | nil => cases he
  | cons a es ih =>
    rw [List.map_cons, List.nodup_cons] at h
    rw [each]
    obtain rfl | he := List.mem_cons.1 he
    · rw [each_of_notMem h.1, Function.update_self]
    · have hne : key e ≠ key a := fun heq => h.1 (heq ▸ List.mem_map_of_mem he)
      rw [ih h.2 he, Function.update_of_ne hne]

theorem each_of_mem (hf : ∀ a b d, f a (f b d) = f a d) (h : k ∈ es.map key) :
    ∃ e ∈ es, key e = k ∧ each key f es s k = f e (s k) := by
  induction es generalizing s with
  | nil => cases h
  | cons a es ih =>
    by_cases hk : k ∈ es.map key
    · obtain ⟨e, he, hek, heq⟩ := ih (s := Function.update s (key a) (f a (s (key a)))) hk
      refine ⟨e, List.mem_cons_of_mem _ he, hek, heq.trans ?_⟩
      by_cases hka : k = key a
      · rw [hka, Function.update_self, hf]
      · rw [Function.update_of_ne hka]
    · have hka : k = key a := (List.mem_cons.1 h).resolve_right hk
      refine ⟨a, List.mem_cons_self, hka.symm, ?_⟩
      rw [each, each_of_notMem hk, hka, Function.update_self]

theorem each_append (es' : List E) :
    each key f (es ++ es') s = each key f es' (each key f es s) := by
  induction es generalizing s with
  | nil => rfl
  | cons e es ih => exact ih

theorem each_of_last (hf : ∀ a b d, f a (f b d) = f a d) {e : E} {es' : List E}
    (h : key e ∉ es'.map key) : each key f (es ++ e :: es') s (key e) = f e (s (key e)) := by
  rw [each_append, each, each_of_notMem h, Function.update_self]
  by_cases hk : key e ∈ es.map key
  · obtain ⟨b, -, -, hb⟩ := each_of_mem hf (s := s) hk
    rw [hb, hf]
  · rw [each_of_notMem hk]

theorem collect_fst {read : D → V} : (collect key f read es s).1 = each key f es s := by
  induction es generalizing s with
  | nil => rfl
  | cons e es ih => exact ih

/-- With different keys, the values are those before the loop. -/
theorem collect_snd {read : D → V} (h : (es.map key).Nodup) :
    (collect key f read es s).2 = es.map fun e => read (s (key e)) := by
  induction es generalizing s with
  | nil => rfl
  | cons a es ih =>
    rw [List.map_cons, List.nodup_cons] at h
    rw [collect, List.map_cons, ih h.2]
    refine congrArg (_ :: ·) (List.map_congr_left fun e he => ?_)
    have hne : key e ≠ key a := fun heq => h.1 (heq ▸ List.mem_map_of_mem he)
    rw [Function.update_of_ne hne]

end Loop
