/-
  TYPE LISTS (`base/type_traits.hpp`, 66–228) — `TypeList` and the recursions over it.

  A template is a function of its arguments; it is `none` where the program is ill-formed, by an index
  that is out of range.  The recursions of the source count types, each with cases of its own for 0 and
  for 1, and take a type by its index in every round.
  * `prefixHelper_succ`, `suffixHelper_succ`, `transformHelper_succ`, `foldExprHelper_succ` — the case
    for 1 is a round like all others;
  * `Slicing` — what the operations are: the first types, the last types, `map` and `foldl`;
  * `slicing` — they are, for every list.
-/
import Mathlib.Data.List.Basic

namespace Turnserver

namespace TypeList

variable {α β : Type}

/-! ## The templates -/

/-- `type_list_idx_impl` -/
def typeListIdxImpl : Nat → List α → Option α
  | _, [] => none
  | 0, t :: _ => some t
  | i + 1, _ :: rest => typeListIdxImpl i rest

/-- `Type<I>`, with the assertion of `type_list_idx_helper` -/
def typeAt (types : List α) (i : Nat) : Option α :=
  if i < types.length then typeListIdxImpl i types else none

/-- `Type<Size - I>`.  For a larger `I` the difference wraps around, and is no index. -/
def typeFromEnd (types : List α) (i : Nat) : Option α :=
  if i ≤ types.length then typeAt types (types.length - i) else none

/-- `push_back` -/
def pushBack (types : List α) (t : α) : List α := types ++ [t]

/-- `push_front` -/
def pushFront (types : List α) (t : α) : List α := t :: types

/-- `extend` -/
def extend (types us : List α) : List α := types ++ us

/-- `prefix_helper` -/
def prefixHelper (types : List α) : Nat → Option (List α)
  | 0 => some []
  | 1 => (typeAt types 0).map fun t => [t]
  | i + 2 => do
    let front ← prefixHelper types (i + 1)
    let t ← typeAt types (i + 1)
    pure (pushBack front t)

/-- `suffix_helper` -/
def suffixHelper (types : List α) : Nat → Option (List α)
  | 0 => some []
  | 1 => (typeFromEnd types 1).map fun t => [t]
  | i + 2 => do
    let back ← suffixHelper types (i + 1)
    let t ← typeFromEnd types (i + 2)
    pure (pushFront back t)

/-- `fold_expr_helper` -/
def foldExprHelper (init : β) (op : β → α → β) (types : List α) : Nat → Option β
  | 0 => some init
  | 1 => (typeAt types 0).map fun t => op init t
  | i + 2 => do
    let value ← foldExprHelper init op types (i + 1)
    let t ← typeAt types (i + 1)
    pure (op value t)

/-- `transform_helper` -/
def transformHelper (op : α → β) (types : List α) : Nat → Option (List β)
  | 0 => some []
  | 1 => (typeAt types 0).map fun t => [op t]
  | i + 2 => do
    let front ← transformHelper op types (i + 1)
    let t ← typeAt types (i + 1)
    pure (pushBack front (op t))

/-- `index_helper`; for the last type there is an assertion. -/
def indexHelper [DecidableEq α] (t : α) : Nat → List α → Option Nat
  | _, [] => none
  | n, [first] => if t = first then some n else none
  | n, first :: rest => if t = first then some n else indexHelper t (n + 1) rest

/-- `Prefix<N>` -/
def prefixTypes (types : List α) (n : Nat) : Option (List α) := prefixHelper types n

/-- `Suffix<N>` -/
def suffixTypes (types : List α) (n : Nat) : Option (List α) := suffixHelper types n

/-- `Index<T>` -/
def index [DecidableEq α] (t : α) (types : List α) : Option Nat := indexHelper t 0 types

/-- `Transform<Op>` -/
def transform (op : α → β) (types : List α) : Option (List β) :=
  transformHelper op types types.length

/-- `FoldExpression<InitValue, Op>` -/
def foldExpression (init : β) (op : β → α → β) (types : List α) : Option β :=
  foldExprHelper init op types types.length

/-! ## One round -/

section Rounds

variable {types : List α}

/-- The recursion over the list is indexing. -/
theorem typeListIdxImpl_eq (i : Nat) (types : List α) : typeListIdxImpl i types = types[i]? := by
  induction types generalizing i with
  | nil =>
    rw [List.getElem?_nil]
    cases i with
    | zero => rfl
    | succ i => rfl
  | cons t rest ih =>
    cases i with
    | zero => rfl
    | succ i => exact (ih i).trans List.getElem?_cons_succ.symm

/-- The assertion refuses what has no meaning anyway. -/
theorem typeAt_eq (types : List α) (i : Nat) : typeAt types i = types[i]? := by
  rw [typeAt, typeListIdxImpl_eq]
  split
  · rfl
  · next h => rw [List.getElem?_eq_none (Nat.le_of_not_lt h)]

/-- The type at an index that there is. -/
theorem typeAt_of_lt {i : Nat} (h : i < types.length) : typeAt types i = some types[i] := by
  rw [typeAt_eq, List.getElem?_eq_getElem h]

/-- The last type but `i`. -/
theorem typeFromEnd_succ {i : Nat} (h : i < types.length) :
    typeFromEnd types (i + 1) = some types[types.length - (i + 1)] := by
  rw [typeFromEnd, if_pos (by omega), typeAt_of_lt (by omega)]

/-- A round from the general case of a recursion. -/
theorem round_eq {γ δ : Type} (x : Option β) (y : Option γ) (f : β → γ → δ) :
    (do let a ← x; let b ← y; pure (f a b)) = x.bind fun a => y.map fun b => f a b := by
  cases x with
  | none => rfl
  | some a => cases y <;> rfl

/-- One type more at the end of the prefix. -/
theorem prefixHelper_succ (i : Nat) :
    prefixHelper types (i + 1) = (prefixHelper types i).bind fun front =>
      (typeAt types i).map fun t => front ++ [t] := by
  cases i with
  | zero => rfl
  | succ i => exact round_eq _ _ _

/-- One type more at the front of the suffix. -/
theorem suffixHelper_succ (i : Nat) :
    suffixHelper types (i + 1) = (suffixHelper types i).bind fun back =>
      (typeFromEnd types (i + 1)).map fun t => t :: back := by
  cases i with
  | zero => rfl
  | succ i => exact round_eq _ _ _

/-- One type more, transformed. -/
theorem transformHelper_succ (op : α → β) (i : Nat) :
    transformHelper op types (i + 1) = (transformHelper op types i).bind fun front =>
      (typeAt types i).map fun t => front ++ [op t] := by
  cases i with
  | zero =>
    rw [transformHelper, transformHelper, Option.bind_some]
    rfl
  | succ i => exact round_eq _ _ _

/-- One type more, folded. -/
theorem foldExprHelper_succ (init : β) (op : β → α → β) (i : Nat) :
    foldExprHelper init op types (i + 1) = (foldExprHelper init op types i).bind fun value =>
      (typeAt types i).map fun t => op value t := by
  cases i with
  | zero => rfl
  | succ i => exact round_eq _ _ _

end Rounds

/-! ## What the recursions compute -/

section Specs

variable {types : List α} {n : Nat}

/-- The prefix is what `take` takes. -/
theorem prefixTypes_eq (h : n ≤ types.length) : prefixTypes types n = some (types.take n) := by
  rw [prefixTypes]
  induction n with
  | zero => rfl
  | succ i ih =>
    rw [prefixHelper_succ, ih (by omega), Option.bind_some, typeAt_of_lt (by omega), Option.map_some,
      List.take_succ_eq_append_getElem (by omega)]

/-- The suffix is what `drop` leaves. -/
theorem suffixTypes_eq (h : n ≤ types.length) :
    suffixTypes types n = some (types.drop (types.length - n)) := by
  rw [suffixTypes]
  induction n with
  | zero =>
    rw [Nat.sub_zero, List.drop_length]
    rfl
  | succ i ih =>
    have hback : types.drop (types.length - (i + 1)) =
        types[types.length - (i + 1)] :: types.drop (types.length - i) := by
      rw [List.drop_eq_getElem_cons (by omega),
        show types.length - (i + 1) + 1 = types.length - i by omega]
    rw [suffixHelper_succ, ih (by omega), Option.bind_some, typeFromEnd_succ (by omega),
      Option.map_some, hback]

/-- The transformed prefix. -/
theorem transformHelper_eq (op : α → β) (h : n ≤ types.length) :
    transformHelper op types n = some ((types.take n).map op) := by
  induction n with
  | zero => rfl
  | succ i ih =>
    rw [transformHelper_succ, ih (by omega), Option.bind_some, typeAt_of_lt (by omega),
      Option.map_some, List.take_succ_eq_append_getElem (by omega), List.map_append,
      List.map_singleton]

/-- Transforming is mapping. -/
theorem transform_eq (op : α → β) (types : List α) :
    transform op types = some (types.map op) := by
  rw [transform, transformHelper_eq op (Nat.le_refl _), List.take_length]

/-- The fold over a prefix. -/
theorem foldExprHelper_eq (init : β) (op : β → α → β) (h : n ≤ types.length) :
    foldExprHelper init op types n = some ((types.take n).foldl op init) := by
  induction n with
  | zero => rfl
  | succ i ih =>
    rw [foldExprHelper_succ, ih (by omega), Option.bind_some, typeAt_of_lt (by omega),
      Option.map_some, List.take_succ_eq_append_getElem (by omega), List.foldl_append,
      List.foldl_cons, List.foldl_nil]

/-- The fold over all types. -/
theorem foldExpression_eq (init : β) (op : β → α → β) (types : List α) :
    foldExpression init op types = some (types.foldl op init) := by
  rw [foldExpression, foldExprHelper_eq init op (Nat.le_refl _), List.take_length]

end Specs

/-! ## Slicing -/

/-- What the operations are on a list of types, for every number of types that it has. -/
structure Slicing (types : List α) : Prop where
  type : ∀ i, typeAt types i = types[i]?
  firsts : ∀ n ≤ types.length, prefixTypes types n = some (types.take n)
  lasts : ∀ n ≤ types.length, suffixTypes types n = some (types.drop (types.length - n))
  whole : ∀ n ≤ types.length, (prefixTypes types n).bind (fun front =>
    (suffixTypes types (types.length - n)).map fun back => extend front back) = some types
  transform : ∀ {β : Type} (op : α → β), transform op types = some (types.map op)
  fold : ∀ {β : Type} (init : β) (op : β → α → β),
    foldExpression init op types = some (types.foldl op init)

/-- The four operations, for every list of types. -/
theorem slicing (types : List α) : Slicing types where
  type := typeAt_eq types
  firsts _ h := prefixTypes_eq h
  lasts _ h := suffixTypes_eq h
  whole n h := by
    rw [prefixTypes_eq h, Option.bind_some, suffixTypes_eq (Nat.sub_le _ _), Option.map_some,
      Nat.sub_sub_self h, extend, List.take_append_drop]
  transform op := transform_eq op types
  fold init op := foldExpression_eq init op types

/-! ## The index of a type -/

/-- Counting up to the first occurrence. -/
theorem indexHelper_eq [DecidableEq α] (t : α) (n : Nat) (types : List α) :
    indexHelper t n types = (types.idxOf? t).map (· + n) := by
  induction types generalizing n with
  | nil => rfl
  | cons first rest ih =>
    have hround : indexHelper t n (first :: rest) =
        if t = first then some n else indexHelper t (n + 1) rest := by
      cases rest with
      | nil => rfl
      | cons second rest => rfl
    rw [hround, List.idxOf?_cons]
    by_cases h : t = first
    · simp [h]
    · rw [if_neg h, ih, if_neg (by simpa using Ne.symm h), Option.map_map]
      congr 1
      funext i
      show i + (n + 1) = i + 1 + n
      omega

/-- `Index<T>` is the first place of the type. -/
theorem index_eq_some [DecidableEq α] {t : α} {types : List α} {i : Nat} :
    index t types = some i ↔
      ∃ h : i < types.length, types[i] = t ∧ ∀ j (_ : j < i), ¬ types[j] = t := by
  rw [index, indexHelper_eq, ← List.idxOf?_eq_some_iff]
  simp

end TypeList

end Turnserver
