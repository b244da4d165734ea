/-
  INTEGERS THAT ARE PRINTED AND READ AGAIN (`new_elbs/cJSON.cc`, 97–138).

  `print_number` writes an integer of the range of `int` with `%d` and any other one with `%.0f`;
  `parse_number` adds up the digits in a `double`.  Up to 2^53 nothing is rounded, so every such integer
  comes back (`survives_number`), and with it every tree that has no other numbers (`Portable.spoken`).

  1. `decimal`, `signed` — the text of an integer; `PrintsIntegers` says that `%d` and `%.0f` write it.
  2. `wholeOf` — what the digits add up to; `ReadsIntegers` says that the sum is exact.
  3. `numeral_signed` — the digits that are scanned add up to the integer that was written.
-/
import Turnserver.Json.PrintParse
import Mathlib.Data.Nat.Digits.Lemmas

namespace Turnserver

namespace Cjson

open Parsing Cursor Ascii LinkedTree Node

/-! ## Decimal digits -/

/-- The character of a decimal digit. -/
def digitChar (d : Nat) : UInt8 := .ofNat (48 + d)

/-- The decimal digits of a number, without leading zeros. -/
def decimal (n : Nat) : CString :=
  if n = 0 then [zero] else (Nat.digits 10 n).reverse.map digitChar

/-- The decimal text of an integer. -/
def signed (i : Int) : CString := if i < 0 then minus :: decimal i.natAbs else decimal i.natAbs

/-- `do n=(n*10.0)+(*num++ -'0'); while (*num>='0' && *num<='9');`, where nothing is rounded -/
def wholeOf (ds : CString) : Nat := ds.foldl (fun n c => n * 10 + (c.toNat - 48)) 0

/-- The character of a digit is found 48 places up the table. -/
theorem digitChar_toNat {d : Nat} (h : d < 10) : (digitChar d).toNat = 48 + d := by
  rw [digitChar, UInt8.toNat_ofNat_of_lt' (show 48 + d < 256 by omega)]

/-- The character of a digit is a digit. -/
theorem digitChar_digit {d : Nat} (h : d < 10) : isDigit (digitChar d) = true := by
  have hlow : (48 : UInt8) ≤ digitChar d := by
    rw [UInt8.le_iff_toNat_le, digitChar_toNat h]
    exact Nat.le_add_right _ _
  have hhigh : digitChar d ≤ (57 : UInt8) := by
    rw [UInt8.le_iff_toNat_le, digitChar_toNat h]
    show 48 + d ≤ 57
    omega
  simp [isDigit, hlow, hhigh]

/-- Digits read from the front are the number of their list read from the back. -/
theorem wholeOf_digits {l : List Nat} (h : ∀ d ∈ l, d < 10) :
    wholeOf (l.reverse.map digitChar) = Nat.ofDigits 10 l := by
  rw [wholeOf, List.map_reverse, List.foldl_reverse]
  induction l with
  | nil => rfl
  | cons d l ih =>
    rw [List.forall_mem_cons] at h
    rw [List.map_cons, List.foldr_cons, ih h.2, digitChar_toNat h.1, Nat.ofDigits_cons]
    simp
    omega

/-- The digits of a number other than 0 do not begin with 0. -/
theorem decimal_pos {n : Nat} (hn : n ≠ 0) :
    ∃ d ds, decimal n = d :: ds ∧ (49 ≤ d ∧ d ≤ 57) ∧ AllDigits ds := by
  -- the first digit is the last one of the list, which is not zero
  have hlt : ∀ d ∈ (Nat.digits 10 n).reverse, d < 10 := fun d hd =>
    Nat.digits_lt_base (by decide) (List.mem_reverse.mp hd)
  have hne : Nat.digits 10 n ≠ [] := Nat.digits_ne_nil_iff_ne_zero.mpr hn
  have hlast := Nat.getLast_digit_ne_zero 10 hn
  rw [decimal, if_neg hn]
  rcases hrev : (Nat.digits 10 n).reverse with _ | ⟨x, xs⟩
  · exact absurd (List.reverse_eq_nil_iff.mp hrev) hne
  · have hx : (Nat.digits 10 n).getLast hne = x := by
      simp [List.getLast_eq_head_reverse, hrev]
    rw [hx] at hlast
    rw [hrev, List.forall_mem_cons] at hlt
    refine ⟨digitChar x, xs.map digitChar, rfl, ⟨?_, ?_⟩, ?_⟩
    · rw [UInt8.le_iff_toNat_le, digitChar_toNat hlt.1]
      show 49 ≤ 48 + x
      omega
    · rw [UInt8.le_iff_toNat_le, digitChar_toNat hlt.1]
      show 48 + x ≤ 57
      omega
    · rintro c hc
      rcases List.mem_map.mp hc with ⟨d, hd, rfl⟩
      exact digitChar_digit (hlt.2 d hd)

/-- The decimal digits of a number are the integer part of a JSON number. -/
theorem decimal_text (n : Nat) : IntText (decimal n) := by
  by_cases hn : n = 0
  · rw [decimal, if_pos hn]
    exact .zero
  · rcases decimal_pos hn with ⟨d, ds, heq, hd, hds⟩
    rw [heq]
    exact .digits hd hds

/-- The decimal text of an integer is a JSON number. -/
theorem signed_text (i : Int) : NumberText (signed i) := by
  have hplain : ∀ n, decimal n = decimal n ++ ([] ++ []) := fun n => by simp
  rw [signed]
  split
  · rw [hplain]
    exact .negative (decimal_text _) .none .none
  · rw [hplain]
    exact .positive (decimal_text _) .none .none

/-- Up to `2^53` an integer takes at most 17 characters. -/
theorem signed_length_le {i : Int} (hi : i.natAbs ≤ 2 ^ 53) : (signed i).length ≤ 17 := by
  have hdecimal : (decimal i.natAbs).length ≤ 16 := by
    rw [decimal]
    split
    · decide
    · rw [List.length_map, List.length_reverse, Nat.digits_length_le_iff (by decide)]
      exact Nat.lt_of_le_of_lt hi (by decide)
  rw [signed]
  split
  · exact Nat.succ_le_succ hdecimal
  · exact Nat.le_succ_of_le hdecimal

/-! ## What is scanned -/

/-- The parser reads back the number from its digits. -/
theorem parse_int_decimal (n : Nat) :
    ∃ ds, wholeOf ds = n ∧ parse_int.run (decimal n ++ [0]) = some (ds, [0]) := by
  by_cases hn : n = 0
  · refine ⟨[], hn.symm, ?_⟩
    rw [decimal, if_pos hn]
    rfl
  · rcases decimal_pos hn with ⟨d, ds, heq, hd, hds⟩
    have hne : d ≠ zero := by
      rintro rfl
      exact absurd hd.1 (by decide)
    have hdigit : isDigit d = true := by
      simp [isDigit, UInt8.le_trans (show (48 : UInt8) ≤ 49 by decide) hd.1, hd.2]
    have hall : AllDigits (d :: ds) := List.forall_mem_cons.mpr ⟨hdigit, hds⟩
    refine ⟨decimal n, ?_, ?_⟩
    · rw [decimal, if_neg hn, wholeOf_digits fun d hd => Nat.digits_lt_base (by decide) hd]
      exact Nat.ofDigits_digits 10 n
    · rw [heq, parse_int, List.cons_append, run_bind (accept_ne hne), run_bind (peekAt_zero _),
        if_pos hd]
      exact digits_run hall ⟨0, [], rfl, by decide⟩

/-- **The digits that are scanned add up to the integer that was written.** -/
theorem numeral_signed (i : Int) :
    ∃ ds, wholeOf ds = i.natAbs ∧ numeral (signed i) = some ⟨decide (i < 0), ds, [], false, []⟩ := by
  rcases parse_int_decimal i.natAbs with ⟨ds, hsum, hrun⟩
  refine ⟨ds, hsum, ?_⟩
  -- behind the sign the digits are read, and nothing is left
  have hbehind : ∀ negative : Bool, (do
      let int ← parse_int
      let frac ← parse_fraction
      let exponent ← parse_exponent
      pure (⟨negative, int, frac, exponent.1, exponent.2⟩ : Numeral)).run (decimal i.natAbs ++ [0]) =
        some (⟨negative, ds, [], false, []⟩, [0]) := fun negative => by
    rw [run_bind hrun]
    rfl
  by_cases hneg : i < 0
  · rw [signed, if_pos hneg, numeral, parse_number, List.cons_append, run_bind (accept_self _),
      hbehind, decide_eq_true hneg]
    rfl
  · rcases int_head (decimal_text i.natAbs) with ⟨d, tail, heq, hd⟩
    -- without a minus the number begins with its digits
    have hne : d ≠ minus := by
      rintro rfl
      cases hd
    rw [signed, if_neg hneg, numeral, parse_number]
    have hnone : (accept minus).run (decimal i.natAbs ++ [0]) =
        some (false, decimal i.natAbs ++ [0]) := by
      rw [heq, List.cons_append]
      exact accept_ne hne
    rw [run_bind hnone, hbehind, decide_eq_false hneg]
    rfl

/-! ## The C library -/

/-- `%d` writes an integer in decimal, and so does `%.0f` where the `double` is an integer. -/
structure PrintsIntegers (S : Sprintf) : Prop where
  d : ∀ i : Int, S.d i = signed i
  f0 : ∀ i : Int, i.natAbs ≤ 2 ^ 53 → S.f0 i = signed i

/-- Without fraction and exponent the sum of the digits is exact up to 2^53, and `pow(10.0,0)` is 1. -/
def ReadsIntegers (double : Numeral → Rat) : Prop :=
  ∀ n : Numeral, n.frac = [] → n.exp = [] → wholeOf n.int ≤ 2 ^ 53 →
    double n = if n.minus then -(wholeOf n.int : Rat) else wholeOf n.int

variable {double : Numeral → Rat} {S : Sprintf}

/-- Zero is below every bound. -/
theorem fabs_zero {x : Rat} (h : x = 0) : fabs x ≤ DBL_EPSILON := by
  rw [h]
  norm_num [fabs, DBL_EPSILON]

/-- An integer up to `2^53` prints as its decimal text. -/
theorem print_number_int (hS : PrintsIntegers S) {i : Int} (hi : i.natAbs ≤ 2 ^ 53) :
    print_number S (createNumber i).item = signed i := by
  have hfloor : (((i : Rat).floor : Int) : Rat) - i = 0 := by
    rw [Rat.floor_intCast]
    exact sub_self _
  show print_number S ⟨.Number, none, toInt (i : Rat), i, none⟩ = _
  rw [print_number]
  simp only [hfloor, fabs_zero rfl, true_and]
  split_ifs with hrange hlarge
  · -- `%d` is chosen in the range of an `int` only, where the conversion keeps the number
    have hhigh : i ≤ 2147483647 := by exact_mod_cast hrange.2.1
    have hlow : -2147483648 ≤ i := by exact_mod_cast hrange.2.2
    rw [toInt_intCast (by omega) (by omega)]
    exact hS.d i
  · exact hS.f0 i hi
  all_goals
    refine absurd ?_ hlarge
    have hle : |(i : Rat)| ≤ 2 ^ 53 := by
      have habs : (i.natAbs : Rat) ≤ 2 ^ 53 := by exact_mod_cast hi
      rwa [Nat.cast_natAbs, Int.cast_abs] at habs
    have hfabs : fabs (i : Rat) ≤ |(i : Rat)| := by
      rw [fabs]
      split
      · exact neg_le_abs _
      · exact le_abs_self _
    calc fabs (i : Rat) ≤ |(i : Rat)| := hfabs
      _ ≤ 2 ^ 53 := hle
      _ < 10 ^ 60 := by norm_num

/-- **An integer up to 2^53 comes back.** -/
theorem survives_number (hS : PrintsIntegers S) (hdouble : ReadsIntegers double) {i : Int}
    (hi : i.natAbs ≤ 2 ^ 53) : Survives double S (createNumber i) := by
  rcases numeral_signed i with ⟨ds, hsum, hnumeral⟩
  have hread : double ⟨decide (i < 0), ds, [], false, []⟩ = i := by
    rw [hdouble _ rfl rfl (by rw [hsum]; exact hi), hsum]
    by_cases hneg : i < 0
    · rw [if_pos (decide_eq_true hneg), Nat.cast_natAbs, abs_of_neg hneg]
      simp
    · rw [if_neg (by simp [hneg]), Nat.cast_natAbs, abs_of_nonneg (not_lt.mp hneg)]
  refine ⟨fun _ => ?_, trivial⟩
  have hprint := print_number_int hS hi
  show (numeral (print_number S (createNumber i).item)).map double = some (i : Rat)
  rw [hprint, hnumeral, Option.map_some, hread]

/-! ## Trees -/

/-- Strings without NUL and integers that are not rounded, in arrays and objects. -/
inductive Portable : Value → Prop
  | string {s : CString} (hs : 0 ∉ s) : Portable (createString s)
  | number {i : Int} (hi : i.natAbs ≤ 2 ^ 53) : Portable (createNumber i)
  | array {vs : List Value} (hvs : ∀ v ∈ vs, Portable v) : Portable (Kind.array.node vs)
  | object {ms : List (CString × Value)} (hnames : ∀ m ∈ ms, 0 ∉ m.1) (hms : ∀ m ∈ ms, Portable m.2) :
      Portable (Kind.object.node (ms.map fun m => named m.1 m.2))

/-- A portable value could have come from the parser. -/
theorem Portable.canonical {v : Value} (h : Portable v) : Canonical v := by
  induction h with
  | string hs => exact .string hs
  | number hi => exact .number _
  | array _ ih => exact .array ih
  | object hnames _ ih => exact .object hnames ih

/-- A portable value comes back from its text. -/
theorem Portable.survives (hS : PrintsIntegers S) (hdouble : ReadsIntegers double) {v : Value}
    (h : Portable v) : Survives double S v := by
  induction h with
  | string hs => exact ⟨nofun, trivial⟩
  | number hi => exact survives_number hS hdouble hi
  | array _ ih => exact ⟨nofun, survivesAll_iff.mpr ih⟩
  | object _ _ ih =>
    refine ⟨nofun, survivesAll_iff.mpr fun v hv => ?_⟩
    rcases List.mem_map.mp hv with ⟨m, hm, rfl⟩
    exact (survives_named _ _).mpr (ih m hm)

/-- **Such a tree comes back**: its text, in either format, says it. -/
theorem Portable.spoken (hS : PrintsIntegers S) (hdouble : ReadsIntegers double) {v : Value}
    (h : Portable v) (fmt : Bool) : Says double Ws .value (print_value S fmt 0 v) [v] := by
  have hback : Says double (Gap fmt) .value (print_value S fmt 0 v) [reread double S v] :=
    says_print v h.canonical.clean 0
  rw [h.canonical.reread_iff.mpr (h.survives hS hdouble)] at hback
  exact hback.mono fun _ hw => hw.1

/-- An example of the C library: other numbers are printed as their integral part. -/
def Sprintf.whole : Sprintf where
  d := signed
  f0 x := signed x.floor
  e x := signed x.floor
  f x := signed x.floor
  d_number := signed_text
  f0_number x := signed_text x.floor
  e_number x := signed_text x.floor
  f_number x := signed_text x.floor

/-- The sample of `sprintf` prints integers. -/
theorem whole_printsIntegers : PrintsIntegers .whole where
  d _ := rfl
  f0 i _ := congrArg signed (Rat.floor_intCast i)

/-- The sum of the digits before the point. -/
def wholeDouble (n : Numeral) : Rat := if n.minus then -(wholeOf n.int : Rat) else wholeOf n.int

/-- The sample of the numbers reads integers. -/
theorem wholeDouble_readsIntegers : ReadsIntegers wholeDouble := fun _ _ _ _ => rfl

end Cjson

end Turnserver
