/-
  C STRINGS — a string in memory ends at its first NUL.

  Memory is the list of the bytes from a pointer to the end of the object it points into.  `cstr` is
  what a function finds that reads to the NUL; it fails where the object ends before one.
  `snprintf` is the call with the format `%s`: at most `n` bytes are written, the NUL included.

  * `cstr_eq_some` — a string is what stands before the first NUL;
  * `cstr_snprintf` — what is printed is read back, up to the room that there was.
-/
import Mathlib.Data.List.Basic

namespace CStr

/-- The C string at the start of `mem`. -/
def cstr : List UInt8 → Option (List UInt8)
  | [] => none
  | c :: mem => if c = 0 then some [] else (cstr mem).map (c :: ·)

/-- `snprintf(buf, n, "%s", s)`, for `n` that is not 0: `buf` afterwards. -/
def snprintf (buf : List UInt8) (n : Nat) (s : List UInt8) : List UInt8 :=
  s.take (n - 1) ++ 0 :: buf.drop ((s.take (n - 1)).length + 1)

/-- A string ends at the first NUL. -/
theorem cstr_eq_some {mem s : List UInt8} :
    cstr mem = some s ↔ 0 ∉ s ∧ ∃ rest, mem = s ++ 0 :: rest := by
  -- induction on the memory: the first character is the NUL, or one of the string
  induction mem generalizing s with
  | nil =>
    constructor
    · intro h
      cases h
    · rintro ⟨-, rest, h⟩
      exact absurd h (by simp)
  | cons c mem ih =>
    rw [cstr]
    split
    · next hc =>
      subst hc
      constructor
      · intro h
        cases h
        exact ⟨List.not_mem_nil, mem, rfl⟩
      · rintro ⟨hs, rest, h⟩
        -- a string in front of the NUL is empty, for it holds none
        cases s with
        | nil => rfl
        | cons d s =>
          cases h
          exact absurd List.mem_cons_self hs
    · next hc =>
      constructor
      · intro h
        obtain ⟨s', hs', rfl⟩ := Option.map_eq_some_iff.mp h
        obtain ⟨hmem, rest, rfl⟩ := ih.mp hs'
        refine ⟨fun h0 => ?_, rest, rfl⟩
        rcases List.mem_cons.mp h0 with h0 | h0
        · exact hc h0.symm
        · exact hmem h0
      · rintro ⟨hs, rest, h⟩
        cases s with
        | nil =>
          cases h
          exact absurd rfl hc
        | cons d s =>
          cases h
          rw [ih.mpr ⟨fun h0 => hs (List.mem_cons_of_mem _ h0), rest, rfl⟩]
          rfl

/-- Without a NUL there is no string. -/
theorem cstr_eq_none {mem : List UInt8} : cstr mem = none ↔ 0 ∉ mem := by
  induction mem with
  | nil => exact iff_of_true rfl List.not_mem_nil
  | cons c mem ih =>
    rw [cstr, List.mem_cons, not_or, ← ih]
    split
    · next hc => exact iff_of_false (fun h => by cases h) fun h => h.1 hc.symm
    · next hc => rw [Option.map_eq_none_iff, and_iff_right (Ne.symm hc)]

/-- A string that is followed by a NUL is read back. -/
theorem cstr_append {s : List UInt8} (hs : 0 ∉ s) (rest : List UInt8) :
    cstr (s ++ 0 :: rest) = some s :=
  cstr_eq_some.mpr ⟨hs, rest, rfl⟩

/-- What was printed into a buffer is a string: as much of it as there is room for in front of the NUL.
    -/
theorem cstr_snprintf {s : List UInt8} (hs : 0 ∉ s) (buf : List UInt8) (n : Nat) :
    cstr (snprintf buf n s) = some (s.take (n - 1)) :=
  cstr_append (fun h => hs (List.mem_of_mem_take h)) _

end CStr
