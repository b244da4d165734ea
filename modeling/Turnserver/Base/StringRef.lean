/-
  VIEWS OF STRINGS (`base/const_utility.h`, 14–70) — `StringRef` and its `operator==`.

  A view is a part of a buffer.  `StringEqual` is given a length, but it also tests for NUL as if it
  compared C strings, and it looks at the byte behind the end of both views before it looks at the
  length.
  * `stringEqual_append`: over equal bytes without NUL it comes to the bytes behind them;
  * `stringEqual_ne`: over different bytes it ends before, with `false`;
  * `stringRef_iff`: for all views, exactly when `==` is equality of the contents.
-/
import Mathlib.Algebra.Group.Nat.Defs
import Mathlib.Data.List.Basic

namespace Turnserver

/-- `StringEqual`, of the bytes from two pointers on; it fails where it reads behind the buffer. -/
def stringEqual : List UInt8 → List UInt8 → Nat → Option Bool
  | a :: as, b :: bs, n =>
    if a = 0 ∧ b = 0 ∧ n = 0 then some true
    else if a = 0 ∨ b = 0 then some false
    else if n = 0 then some true
    else if a ≠ b then some false
    else stringEqual as bs (n - 1)
  | _, _, _ => none

/-- A view: `size_` bytes of the buffer, from `begin_` on. -/
structure StringRef where
  buffer : List UInt8
  begin_ : Nat
  size_ : UInt32
  inside : begin_ + size_.toNat ≤ buffer.length

namespace StringRef

/-- `StringRef(const char (&arr)[N])`: the array ends in a NUL. -/
def ofLiteral (s : List UInt8) (h : s.length < 2 ^ 32) : StringRef where
  buffer := s ++ [0]
  begin_ := 0
  size_ := .ofNat s.length
  inside := by
    rw [UInt32.toNat_ofNat', Nat.mod_eq_of_lt h, List.length_append]
    omega

/-- `StringRef(buf, len)`, for `buf` in a buffer that has `len` bytes from there on. -/
def ofPointer (buffer : List UInt8) (buf : Nat) (len : UInt32)
    (h : buf + len.toNat ≤ buffer.length) : StringRef := ⟨buffer, buf, len, h⟩

/-- `SubString(pos, len)`, for a range inside the view. -/
def subString (a : StringRef) (pos : Nat) (len : UInt32) (h : pos + len.toNat ≤ a.size_.toNat) :
    StringRef := ofPointer a.buffer (a.begin_ + pos) len (by have := a.inside; omega)

/-- The bytes below `Size()`. -/
def contents (a : StringRef) : List UInt8 := (a.buffer.drop a.begin_).take a.size_.toNat

/-- The bytes of the buffer behind the view. -/
def behind (a : StringRef) : List UInt8 := a.buffer.drop (a.begin_ + a.size_.toNat)

/-- `operator==` -/
def equal (a b : StringRef) : Option Bool :=
  if a.size_ ≠ b.size_ then some false
  else stringEqual (a.buffer.drop a.begin_) (b.buffer.drop b.begin_) a.size_.toNat

/-- A view has as many characters as it says. -/
theorem length_contents (a : StringRef) : a.contents.length = a.size_.toNat := by
  have := a.inside
  rw [contents, List.length_take, List.length_drop]
  omega

/-- The buffer behind the begin: the view, and what comes after it. -/
theorem contents_behind (a : StringRef) : a.buffer.drop a.begin_ = a.contents ++ a.behind := by
  rw [contents, behind, ← List.drop_drop, List.take_append_drop]

end StringRef

/-! ## The recursion -/

/-- A NUL among equal bytes ends the comparison. -/
theorem stringEqual_nul {u : List UInt8} (h0 : 0 ∈ u) (as bs : List UInt8) :
    stringEqual (u ++ as) (u ++ bs) u.length = some false := by
  induction u with
  | nil => cases h0
  | cons c u ih =>
    rw [List.cons_append, List.cons_append, stringEqual, List.length_cons, if_neg (by omega)]
    split
    · rfl
    · next hc =>
      rw [if_neg (by omega), if_neg (by simp), Nat.add_sub_cancel]
      refine ih ((List.mem_cons.mp h0).resolve_left fun h => hc (Or.inl h.symm))

/-- Over equal bytes without NUL the comparison comes to what is behind them. -/
theorem stringEqual_append {u : List UInt8} (h0 : 0 ∉ u) (as bs : List UInt8) :
    stringEqual (u ++ as) (u ++ bs) u.length = stringEqual as bs 0 := by
  induction u with
  | nil => rfl
  | cons c u ih =>
    obtain ⟨hc, h0⟩ := not_or.mp fun h => h0 (List.mem_cons.mpr h)
    rw [List.cons_append, List.cons_append, stringEqual, List.length_cons, if_neg (by omega),
      if_neg (fun h => by rcases h with h | h <;> exact hc h.symm), if_neg (by omega),
      if_neg (by simp), Nat.add_sub_cancel, ih h0]

/-- Different bytes of one length are found different. -/
theorem stringEqual_ne {u v : List UInt8} (hlen : u.length = v.length) (hne : u ≠ v)
    (as bs : List UInt8) : stringEqual (u ++ as) (v ++ bs) u.length = some false := by
  induction u generalizing v with
  | nil => exact absurd (List.length_eq_zero_iff.mp hlen.symm).symm hne
  | cons c u ih =>
    cases v with
    | nil => cases hlen
    | cons d v =>
      rw [List.cons_append, List.cons_append, stringEqual, List.length_cons, if_neg (by omega)]
      split
      · rfl
      · rw [if_neg (by omega)]
        split
        · rfl
        · next hcd =>
          obtain rfl : c = d := not_not.mp hcd
          rw [Nat.add_sub_cancel]
          exact ih (Nat.succ.inj hlen) fun h => hne (h ▸ rfl)

/-- At the end the two bytes behind the views decide. -/
theorem stringEqual_zero (as bs : List UInt8) :
    stringEqual as bs 0 = some true ↔
      ∃ a b, as.head? = some a ∧ bs.head? = some b ∧ (a = 0 ↔ b = 0) := by
  cases as with
  | nil =>
    refine iff_of_false (fun h => by cases h) ?_
    rintro ⟨a, b, ha, -⟩
    cases ha
  | cons a as =>
    cases bs with
    | nil =>
      refine iff_of_false (fun h => by cases h) ?_
      rintro ⟨a, b, -, hb, -⟩
      cases hb
    | cons b bs =>
      rw [stringEqual]
      by_cases ha : a = 0 <;> by_cases hb : b = 0 <;> simp [ha, hb]

/-! ## Equality of views -/

namespace StringRef

/-- `==` is equality of the sizes and of the bytes below them. -/
def Law (a b : StringRef) : Prop :=
  a.equal b = some (decide (a.size_ = b.size_ ∧ ∀ i < a.size_.toNat, a.contents[i]? = b.contents[i]?))

/-- Views of the same bytes have no NUL in them, and behind both of them there is a byte; both of these
    are NUL, or none of them is. -/
def Fits (a b : StringRef) : Prop :=
  a.contents = b.contents → 0 ∉ a.contents ∧
    ∃ x y, a.behind.head? = some x ∧ b.behind.head? = some y ∧ (x = 0 ↔ y = 0)

/-- Views have the same characters if they are of one size and agree at every index. -/
theorem contents_eq_iff {a b : StringRef} :
    a.contents = b.contents ↔
      a.size_ = b.size_ ∧ ∀ i < a.size_.toNat, a.contents[i]? = b.contents[i]? := by
  constructor
  · intro h
    refine ⟨UInt32.toNat_inj.mp ?_, fun i _ => by rw [h]⟩
    rw [← length_contents, ← length_contents, h]
  · rintro ⟨hsize, hbytes⟩
    have hlen : a.contents.length = b.contents.length := by
      rw [length_contents, length_contents, hsize]
    refine List.ext_getElem? fun i => ?_
    rcases Nat.lt_or_ge i a.size_.toNat with hi | hi
    · exact hbytes i hi
    · rw [← length_contents] at hi
      rw [List.getElem?_eq_none hi, List.getElem?_eq_none (hlen ▸ hi)]

/-- Different contents compare as different. -/
theorem equal_of_ne {a b : StringRef} (h : a.contents ≠ b.contents) : a.equal b = some false := by
  rw [equal]
  split
  · rfl
  · next hsize =>
    rw [contents_behind a, contents_behind b, ← length_contents]
    refine stringEqual_ne ?_ h _ _
    rw [length_contents, length_contents, not_not.mp hsize]

/-- For equal contents it depends on a NUL in them, or on what stands behind them. -/
theorem equal_of_eq {a b : StringRef} (h : a.contents = b.contents) :
    a.equal b = if 0 ∈ a.contents then some false else stringEqual a.behind b.behind 0 := by
  rw [equal, if_neg (not_not.mpr (contents_eq_iff.mp h).1), contents_behind a, contents_behind b,
    ← length_contents, ← h]
  split
  · next h0 => exact stringEqual_nul h0 _ _
  · next h0 => exact stringEqual_append h0 _ _

/-- **Exactly when `==` is equality of the contents.** -/
theorem stringRef_iff (a b : StringRef) : a.Law b ↔ a.Fits b := by
  rw [Law, Fits, decide_eq_decide.mpr contents_eq_iff.symm]
  by_cases h : a.contents = b.contents
  · rw [equal_of_eq h, decide_eq_true h, ← stringEqual_zero, forall_prop_of_true h]
    split
    · next h0 => exact iff_of_false (fun h => by cases h) fun h => h.1 h0
    · next h0 => rw [and_iff_right h0]
  · exact iff_of_true ((equal_of_ne h).trans (congrArg some (decide_eq_false h).symm)) fun heq =>
      absurd heq h

/-- The literal `"ab"` -/
def ab : StringRef := ofLiteral [97, 98] (by decide)

/-- The literal `"a\0b"` -/
def aNulB : StringRef := ofLiteral [97, 0, 98] (by decide)

/-- `"a"` and the first byte of `"ab"` have the same contents and are not `==`, and a view with a NUL
    is not `==` to itself. -/
theorem stringRef_fails :
    ¬ (ofLiteral [97] (by decide)).Law (ab.subString 0 1 (by decide)) ∧ ¬ aNulB.Law aNulB := by
  unfold Law
  decide

end StringRef

end Turnserver
