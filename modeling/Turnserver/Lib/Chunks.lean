/-
  CHUNKED SEQUENCES — one sequence that is stored as a list of chunks.

  What is stored is the concatenation `cs.flatten`; where the chunks end, and that some are empty,
  should make no difference to anything that is read.

  * `leftOver n cs` — the chunks after the first `n` elements are dropped: a chunk that is used up goes,
    and of the chunk in which the cut lies the rest stays;
  * `leftOver_flatten` — it stores the sequence without its first `n` elements.
-/
import Mathlib.Data.List.Basic

namespace Chunks

variable {α : Type}

/-- What is left of the chunks when the first `n` elements are taken; a chunk that is used up goes. -/
def leftOver : Nat → List (List α) → List (List α)
  | _, [] => []
  | n, c :: cs =>
    if n < c.length then c.drop n :: cs
    else if n = c.length then cs
    else leftOver (n - c.length) cs

/-- These are the elements behind the first `n`. -/
theorem leftOver_flatten (n : Nat) (cs : List (List α)) :
    (leftOver n cs).flatten = cs.flatten.drop n := by
  induction cs generalizing n with
  | nil => rw [leftOver, List.flatten_nil, List.drop_nil]
  | cons c cs ih =>
    unfold leftOver
    rw [List.flatten_cons]
    by_cases hin : n < c.length
    · rw [if_pos hin, List.flatten_cons, List.drop_append_of_le_length (by omega)]
    · rw [if_neg hin]
      by_cases hend : n = c.length
      · rw [if_pos hend, hend, List.drop_left]
      · have hused : c.drop n = [] := List.drop_eq_nil_of_le (by omega)
        rw [if_neg hend, ih, List.drop_append, hused, List.nil_append]

end Chunks
