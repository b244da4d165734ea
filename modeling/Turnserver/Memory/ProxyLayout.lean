/-
  THE LAYOUT OF A PROXY (`memory/mem_proxy.h`, 22–63: `MemProxy`) — the bytes of a list of types.

  `FullSize`, `PrefixSize<N>` and `SuffixSize<N>` slice the list of the types, map the slice to the
  sizes of its types, and add these up.  Nothing looks at the sums: they are constants of type
  `size_t`, and wrap around at 2^64.

  * `Sums` — in the arithmetic of `size_t` a prefix and the suffix behind it make up the whole, and the
    next prefix is longer by the size of one type;
  * `cuts` — the ranges of the layers, by recursion on the sizes with the running offset;
  * `tiled_iff` — the layers tile `[0, FullSize)` exactly where the sizes together stay below 2^64.
-/
import Turnserver.Base.TypeList
import Turnserver.Lib.Tiling
import Mathlib.Data.List.Nodup
import Mathlib.Algebra.GroupWithZero.Nat

namespace Turnserver

namespace MemProxy

open TypeList Tiling

variable {α : Type}

/-! ## The code -/

/-- `Sum` -/
def sum (t u : UInt64) : UInt64 := t + u

/-- `Transform<Sizeof>::FoldExpression<integral_constant<size_t, 0>, Sum>` -/
def sumOfSizes (sizeof : α → UInt64) (types : List α) : Option UInt64 := do
  let sizes ← transform sizeof types
  foldExpression 0 sum sizes

/-- `FullSize` -/
def fullSize (sizeof : α → UInt64) (types : List α) : Option UInt64 := sumOfSizes sizeof types

/-- `PrefixSize<N>` -/
def prefixSize (sizeof : α → UInt64) (types : List α) (n : Nat) : Option UInt64 := do
  let front ← prefixTypes types n
  sumOfSizes sizeof front

/-- `SuffixSize<N>` -/
def suffixSize (sizeof : α → UInt64) (types : List α) (n : Nat) : Option UInt64 := do
  let back ← suffixTypes types n
  sumOfSizes sizeof back

/-- The bytes of `Layer<N>()`, from the begin of the buffer on. -/
def layerBytes (sizeof : α → UInt64) (types : List α) (n : Nat) : Option (Nat × Nat) := do
  let skip ← prefixSize sizeof types n
  let t ← typeAt types n
  pure (skip.toNat, skip.toNat + (sizeof t).toNat)

/-- The bytes of `Layer<T>()` -/
def layerBytesOf [DecidableEq α] (sizeof : α → UInt64) (types : List α) (t : α) :
    Option (Nat × Nat) := do
  let n ← index t types
  layerBytes sizeof types n

/-! ## The sums -/

section Sums

variable {sizeof : α → UInt64} {types : List α}

/-- A fold of sums from `start` is `start` and the fold from zero. -/
theorem foldl_sum (start : UInt64) (sizes : List UInt64) :
    sizes.foldl sum start = start + sizes.foldl sum 0 := by
  induction sizes generalizing start with
  | nil => exact (UInt64.add_zero start).symm
  | cons s sizes ih =>
    rw [List.foldl_cons, List.foldl_cons, ih (sum start s), ih (sum 0 s), sum, sum, UInt64.zero_add,
      UInt64.add_assoc]

/-- The fold of sums is the sum of the sizes, up to the wrap at `2^64`. -/
theorem foldl_sum_toNat (start : UInt64) (sizes : List UInt64) :
    (sizes.foldl sum start).toNat = (start.toNat + (sizes.map UInt64.toNat).sum) % 2 ^ 64 := by
  induction sizes generalizing start with
  | nil =>
    have hlt := start.toNat_lt
    simp only [List.foldl_nil, List.map_nil, List.sum_nil]
    omega
  | cons s sizes ih =>
    rw [List.foldl_cons, ih, List.map_cons, List.sum_cons, sum, UInt64.toNat_add]
    omega

/-- The sum over the parameter pack is a fold. -/
theorem sumOfSizes_eq (sizeof : α → UInt64) (types : List α) :
    sumOfSizes sizeof types = some ((types.map sizeof).foldl sum 0) := by
  rw [sumOfSizes, transform_eq]
  exact foldExpression_eq 0 sum _

/-- `PrefixSize` is the fold over the first types. -/
theorem prefixSize_eq {n : Nat} (h : n ≤ types.length) :
    prefixSize sizeof types n = some (((types.take n).map sizeof).foldl sum 0) := by
  rw [prefixSize, prefixTypes_eq h]
  exact sumOfSizes_eq sizeof _

/-- `SuffixSize` is the fold over the last types. -/
theorem suffixSize_eq {n : Nat} (h : n ≤ types.length) :
    suffixSize sizeof types n =
      some (((types.drop (types.length - n)).map sizeof).foldl sum 0) := by
  rw [suffixSize, suffixTypes_eq h]
  exact sumOfSizes_eq sizeof _

/-- The sums of the slices, as constants of type `size_t`. -/
structure Sums (sizeof : α → UInt64) (types : List α) : Prop where
  split : ∀ n ≤ types.length, ∃ front back, prefixSize sizeof types n = some front ∧
    suffixSize sizeof types (types.length - n) = some back ∧
    fullSize sizeof types = some (front + back)
  next : ∀ n (_ : n < types.length), ∃ front, prefixSize sizeof types n = some front ∧
    prefixSize sizeof types (n + 1) = some (front + sizeof types[n])

/-- The sums of the templates add up, for every list of types. -/
theorem sums (sizeof : α → UInt64) (types : List α) : Sums sizeof types where
  split n h := by
    refine ⟨_, _, prefixSize_eq h, suffixSize_eq (Nat.sub_le _ _), ?_⟩
    rw [fullSize, sumOfSizes_eq, Nat.sub_sub_self h, ← foldl_sum, ← List.foldl_append,
      ← List.map_append, List.take_append_drop]
  next n h := by
    refine ⟨_, prefixSize_eq (Nat.le_of_lt h), ?_⟩
    rw [prefixSize_eq h, List.take_succ_eq_append_getElem h, List.map_append, List.foldl_append]
    rfl

end Sums

/-! ## The ranges of the layers -/

/-- The ranges of the layers from one with the offset `start` on. -/
def cuts : UInt64 → List UInt64 → List (Nat × Nat)
  | _, [] => []
  | start, s :: sizes => (start.toNat, start.toNat + s.toNat) :: cuts (sum start s) sizes

/-- The cut of layer `n` begins where the layers before it end. -/
theorem cuts_getElem? (start : UInt64) (sizes : List UInt64) (n : Nat) :
    (cuts start sizes)[n]? = sizes[n]?.map fun s =>
      (((sizes.take n).foldl sum start).toNat, ((sizes.take n).foldl sum start).toNat + s.toNat) := by
  induction sizes generalizing start n with
  | nil => rfl
  | cons s sizes ih =>
    cases n with
    | zero => rfl
    | succ n =>
      rw [cuts, List.getElem?_cons_succ, List.getElem?_cons_succ, ih, List.take_succ_cons]
      rfl

/-- The bytes of a layer are a cut. -/
theorem layerBytes_eq (sizeof : α → UInt64) (types : List α) (n : Nat) :
    layerBytes sizeof types n = (cuts 0 (types.map sizeof))[n]? := by
  rw [cuts_getElem?, layerBytes, typeAt_eq, List.getElem?_map, ← List.map_take]
  rcases Nat.lt_or_ge n types.length with h | h
  · rw [prefixSize_eq (Nat.le_of_lt h), List.getElem?_eq_getElem h]
    rfl
  · rw [List.getElem?_eq_none h]
    cases prefixSize sizeof types n with
    | none => rfl
    | some skip => rfl

/-- Below 2^64 each layer starts where the one before it ended. -/
theorem cuts_chain (start : UInt64) (sizes : List UInt64)
    (h : start.toNat + (sizes.map UInt64.toNat).sum < 2 ^ 64) :
    Chain start.toNat (cuts start sizes) (start.toNat + (sizes.map UInt64.toNat).sum) := by
  induction sizes generalizing start with
  | nil => rfl
  | cons s sizes ih =>
    rw [List.map_cons, List.sum_cons] at h ⊢
    have hnext : (sum start s).toNat = start.toNat + s.toNat := by
      rw [sum, UInt64.toNat_add]
      omega
    have hrest := ih (sum start s) (by omega)
    rw [hnext, Nat.add_assoc] at hrest
    exact ⟨rfl, Nat.le_add_right _ _, hrest⟩

/-- Where the layers are adjacent, no offset but the last end has wrapped around. -/
theorem chain_of_adjacent {start : UInt64} {sizes : List UInt64}
    (h : (cuts start sizes).IsChain fun r s => r.2 = s.1) :
    Chain start.toNat (cuts start sizes) (start.toNat + (sizes.map UInt64.toNat).sum) := by
  induction sizes generalizing start with
  | nil => rfl
  | cons s sizes ih =>
    refine ⟨rfl, Nat.le_add_right _ _, ?_⟩
    rw [List.map_cons, List.sum_cons, ← Nat.add_assoc]
    cases sizes with
    | nil => rfl
    | cons s' sizes =>
      obtain ⟨hnext, hrest⟩ := List.isChain_cons_cons.mp h
      have hstart : start.toNat + s.toNat = (sum start s).toNat := hnext
      have hchain := ih hrest
      rw [← hstart] at hchain
      exact hchain

/-- The layers tile `[0, FullSize)`. -/
def Tiled (sizeof : α → UInt64) (types : List α) : Prop :=
  ∃ full ranges, fullSize sizeof types = some full ∧
    (∀ n : Nat, layerBytes sizeof types n = ranges[n]?) ∧ Tiles ranges 0 full.toNat

/-- The bytes of all types together, without a bound. -/
def totalSize (sizeof : α → UInt64) (types : List α) : Nat :=
  (types.map fun t => (sizeof t).toNat).sum

/-- The total size, without wrapping. -/
theorem totalSize_eq (sizeof : α → UInt64) (types : List α) :
    totalSize sizeof types = ((types.map sizeof).map UInt64.toNat).sum := by
  rw [List.map_map]
  rfl

/-- The total size splits at every layer. -/
theorem totalSize_take_add (sizeof : α → UInt64) (types : List α) (n : Nat) :
    totalSize sizeof (types.take n) + totalSize sizeof (types.drop n) = totalSize sizeof types := by
  simp only [totalSize]
  rw [← List.sum_append, ← List.map_append, List.take_append_drop]

/-- Below 2^64 nothing wraps around. -/
theorem foldl_sum_of_lt {sizeof : α → UInt64} {types : List α}
    (h : totalSize sizeof types < 2 ^ 64) :
    ((types.map sizeof).foldl sum 0).toNat = totalSize sizeof types := by
  rw [foldl_sum_toNat, ← totalSize_eq, UInt64.toNat_zero, Nat.zero_add, Nat.mod_eq_of_lt h]

/-- The layers tile the bytes exactly if the sizes do not wrap. -/
theorem tiled_iff (sizeof : α → UInt64) (types : List α) :
    Tiled sizeof types ↔ totalSize sizeof types < 2 ^ 64 := by
  constructor
  · rintro ⟨full, ranges, -, hranges, htiles⟩
    obtain rfl : ranges = cuts 0 (types.map sizeof) :=
      List.ext_getElem? fun n => (hranges n).symm.trans (layerBytes_eq sizeof types n)
    have hend := (chain_of_adjacent htiles.adjacent).end_unique (Nat.zero_le _) htiles
    rw [← totalSize_eq, UInt64.toNat_zero, Nat.zero_add] at hend
    rw [hend]
    exact full.toNat_lt
  · intro h
    have hchain := cuts_chain 0 (types.map sizeof)
      (by rw [← totalSize_eq, UInt64.toNat_zero]; omega)
    rw [← totalSize_eq, UInt64.toNat_zero, Nat.zero_add, ← foldl_sum_of_lt h] at hchain
    exact ⟨_, _, sumOfSizes_eq sizeof types, layerBytes_eq sizeof types, hchain.tiles⟩

/-! ## The law of the layout -/

/-- Slices, sums, and a layout without a gap. -/
structure Layout (sizeof : α → UInt64) (types : List α) : Prop where
  slicing : Slicing types
  sums : Sums sizeof types
  tiled : Tiled sizeof types

/-- **The layout of every list of types**: the slices and the sums are right, and exactly where all
    types together take less than 2^64 bytes the layers tile `[0, FullSize)`. -/
theorem layout_exact (sizeof : α → UInt64) (types : List α) :
    Slicing types ∧ Sums sizeof types ∧
      (Tiled sizeof types ↔ totalSize sizeof types < 2 ^ 64) :=
  ⟨TypeList.slicing types, MemProxy.sums sizeof types, tiled_iff sizeof types⟩

/-- Sixteen types of 2^60 bytes: `FullSize` is 0. -/
theorem layout_wraps : ¬ Layout (id : UInt64 → UInt64) (List.replicate 16 0x1000000000000000) := by
  intro h
  exact absurd ((tiled_iff _ _).mp h.tiled) (by decide)

/-- The types of 8, 16 and 20 bytes -/
example : prefixSize id [8, 16, 20] 2 = some 24 ∧ suffixSize id [8, 16, 20] 2 = some 36 ∧
    fullSize id [8, 16, 20] = some 44 := by decide

/-- A layer may be asked for by its type, if the types are different. -/
theorem layerBytesOf_getElem [DecidableEq α] (sizeof : α → UInt64) {types : List α}
    (hnodup : types.Nodup) {n : Nat} (h : n < types.length) :
    layerBytesOf sizeof types types[n] = layerBytes sizeof types n := by
  have hindex : index types[n] types = some n := by
    refine index_eq_some.mpr ⟨h, rfl, fun j hj heq => ?_⟩
    have hjn : j = n := hnodup.getElem_inj_iff.mp heq
    omega
  rw [layerBytesOf, hindex]
  rfl

end MemProxy

end Turnserver
