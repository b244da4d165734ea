/-
  ORDERS BY KEY — a comparison that is the comparison of keys in a linear order.

  A comparison written by hand, field after field, compares the lists of the fields.  Once that is
  shown, everything an ordered container asks of it follows from the order of the keys.

  * `StrictTotal` — a strict order in which any two values are related in exactly one way;
  * `StrictTotal.of_key` — a comparison by key is one, with equality of keys as the equality;
  * `map_lt_map` — lists are ordered as their images under a map that keeps the order.
-/
import Mathlib.Data.List.Lex
import Mathlib.Order.Lattice

namespace KeyOrder

variable {α κ : Type}

/-- A strict total order up to an equality: `less` is irreflexive and transitive, and exactly one of
    `less a b`, `equal a b` and `less b a` holds. -/
structure StrictTotal (less equal : α → α → Prop) : Prop where
  irrefl : ∀ a, ¬ less a a
  trans : ∀ a b c, less a b → less b c → less a c
  trichotomy : ∀ a b, less a b ∨ equal a b ∨ less b a
  exclusive : ∀ a b, less a b → ¬ equal a b ∧ ¬ equal b a ∧ ¬ less b a

namespace StrictTotal

variable [LinearOrder κ] {less equal : α → α → Prop}

/-- A comparison by key is a strict total order. -/
theorem of_key (key : α → κ) (hless : ∀ a b, less a b ↔ key a < key b)
    (hequal : ∀ a b, equal a b ↔ key a = key b) : StrictTotal less equal where
  irrefl a h := lt_irrefl _ ((hless a a).mp h)
  trans a b c hab hbc := (hless a c).mpr (((hless a b).mp hab).trans ((hless b c).mp hbc))
  trichotomy a b := by
    rcases lt_trichotomy (key a) (key b) with h | h | h
    · exact Or.inl ((hless a b).mpr h)
    · exact Or.inr (Or.inl ((hequal a b).mpr h))
    · exact Or.inr (Or.inr ((hless b a).mpr h))
  exclusive a b h := by
    have hlt := (hless a b).mp h
    refine ⟨fun heq => hlt.ne ((hequal a b).mp heq), fun heq => ?_, fun hba => ?_⟩
    · exact hlt.ne' ((hequal b a).mp heq)
    · exact hlt.asymm ((hless b a).mp hba)

/-- Neither of two values is less than the other exactly when they are equal. -/
theorem incomparable_iff (h : StrictTotal less equal) (a b : α) :
    (¬ less a b ∧ ¬ less b a) ↔ equal a b := by
  constructor
  · rintro ⟨hab, hba⟩
    rcases h.trichotomy a b with hlt | heq | hlt
    · exact absurd hlt hab
    · exact heq
    · exact absurd hlt hba
  · intro heq
    exact ⟨fun hab => (h.exclusive a b hab).1 heq, fun hba => (h.exclusive b a hba).2.1 heq⟩

end StrictTotal

/-- Lists of keys are ordered as the lists are. -/
theorem map_lt_map [LT α] [LT κ] {f : α → κ} (hf : Function.Injective f)
    (hlt : ∀ x y, f x < f y ↔ x < y) (xs ys : List α) : xs.map f < ys.map f ↔ xs < ys := by
  induction xs generalizing ys with
  | nil =>
    cases ys with
    | nil => exact iff_of_false (List.not_lt_nil _) (List.not_lt_nil _)
    | cons y ys => exact iff_of_true (List.nil_lt_cons _ _) (List.nil_lt_cons _ _)
  | cons x xs ih =>
    cases ys with
    | nil => exact iff_of_false (List.not_lt_nil _) (List.not_lt_nil _)
    | cons y ys =>
      rw [List.map_cons, List.map_cons, List.cons_lt_cons_iff, List.cons_lt_cons_iff, hlt,
        hf.eq_iff, ih]

end KeyOrder
