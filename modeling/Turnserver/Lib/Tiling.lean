/-
  TILINGS — half-open ranges that fill an interval, one behind the other.

  A range is the pair of its ends.  `Chain lo rs hi` is how such a list is made: every range starts
  where the one before it ended.  `Tiles rs lo hi` is what the list is good for: neighbours touch, no
  two ranges overlap, and together they are `[lo, hi)`.

  * `Chain.tiles` — what is made so is a tiling;
  * `Chain.end_unique` — a chain covers an interval of its own only.
-/
import Mathlib.Data.List.Chain
import Mathlib.Order.Interval.Set.LinearOrder

namespace Tiling

variable {α : Type} [LinearOrder α]

/-- The ranges lead from `lo` to `hi`. -/
def Chain : α → List (α × α) → α → Prop
  | lo, [], hi => lo = hi
  | lo, r :: rs, hi => r.1 = lo ∧ r.1 ≤ r.2 ∧ Chain r.2 rs hi

/-- The ranges are adjacent and disjoint, and cover exactly `[lo, hi)`. -/
structure Tiles (rs : List (α × α)) (lo hi : α) : Prop where
  adjacent : rs.IsChain fun r s => r.2 = s.1
  disjoint : rs.Pairwise fun r s => ∀ x ∈ Set.Ico r.1 r.2, x ∉ Set.Ico s.1 s.2
  cover : ∀ x, (∃ r ∈ rs, x ∈ Set.Ico r.1 r.2) ↔ x ∈ Set.Ico lo hi

namespace Chain

variable {lo hi : α} {rs : List (α × α)}

/-- The end is not before the beginning. -/
theorem le (h : Chain lo rs hi) : lo ≤ hi := by
  induction rs generalizing lo with
  | nil => exact le_of_eq h
  | cons r rs ih =>
    obtain ⟨rfl, hle, hrest⟩ := h
    exact hle.trans (ih hrest)

/-- Together the ranges cover what is between the ends. -/
theorem cover (h : Chain lo rs hi) (x : α) :
    (∃ r ∈ rs, x ∈ Set.Ico r.1 r.2) ↔ x ∈ Set.Ico lo hi := by
  induction rs generalizing lo with
  | nil =>
    obtain rfl : lo = hi := h
    simp
  | cons r rs ih =>
    obtain ⟨rfl, hle, hrest⟩ := h
    simp only [List.mem_cons, exists_eq_or_imp, ih hrest]
    rw [← Set.mem_union, Set.Ico_union_Ico_eq_Ico hle hrest.le]

/-- Each range begins where the one before it ends. -/
theorem adjacent (h : Chain lo rs hi) : rs.IsChain fun r s => r.2 = s.1 := by
  induction rs generalizing lo with
  | nil => exact List.isChain_nil
  | cons r rs ih =>
    obtain ⟨-, -, hrest⟩ := h
    cases rs with
    | nil => exact List.isChain_singleton r
    | cons s rs => exact List.isChain_cons_cons.mpr ⟨hrest.1.symm, ih hrest⟩

/-- No two ranges have a point in common. -/
theorem disjoint (h : Chain lo rs hi) :
    rs.Pairwise fun r s => ∀ x ∈ Set.Ico r.1 r.2, x ∉ Set.Ico s.1 s.2 := by
  induction rs generalizing lo with
  | nil => exact List.Pairwise.nil
  | cons r rs ih =>
    obtain ⟨-, -, hrest⟩ := h
    refine List.Pairwise.cons (fun s hs x hr hx => ?_) (ih hrest)
    -- what comes later lies behind the end of the first range
    have hbehind := (hrest.cover x).mp ⟨s, hs, hx⟩
    exact absurd hr.2 (not_lt.mpr hbehind.1)

/-- A chain is a tiling. -/
theorem tiles (h : Chain lo rs hi) : Tiles rs lo hi := ⟨h.adjacent, h.disjoint, h.cover⟩

/-- A chain that covers `[lo, hi)` ends at `hi`. -/
theorem end_unique {stop : α} (h : Chain lo rs stop) (hle : lo ≤ hi) (htiles : Tiles rs lo hi) :
    stop = hi := by
  have heq : ∀ x, x ∈ Set.Ico lo stop ↔ x ∈ Set.Ico lo hi := fun x =>
    (h.cover x).symm.trans (htiles.cover x)
  rcases lt_trichotomy stop hi with hlt | rfl | hlt
  · exact absurd ((heq stop).mpr ⟨h.le, hlt⟩).2 (lt_irrefl _)
  · rfl
  · exact absurd ((heq hi).mp ⟨hle, hlt⟩).2 (lt_irrefl _)

end Chain

end Tiling
