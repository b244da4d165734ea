/-
  PRINTED AND PARSED (`new_elbs/cJSON.cc`, 96–251, 261–508).

  What becomes of a tree that is printed, with or without formatting, and parsed again: `reread`.  Its
  strings and the order of everything come back byte by byte; a number comes back as `double` of the text
  that was printed for it; nothing is left of names outside of objects.

  * `parse_print`: the parser makes this of what was printed, for every tree whose strings are there;
  * `parse_value_canonical`: what the parser ever builds has nothing that could be lost, and the two
    copies of its numbers are of one `double` (`Canonical.valueint`);
  * `undoes_iff`: so a tree comes back as it was exactly when it is one of those and each of its numbers
    survives.
-/
import Turnserver.Json.JsonFile
import Turnserver.Json.Meaning
import Mathlib.Data.List.TakeWhile

namespace Turnserver

namespace Cjson

open Parsing Cursor Ascii LinkedTree Node

/-! ## Numbers -/

/-- What is scanned of a text that is a number. -/
def numeral (s : CString) : Option Numeral := (parse_number.run (s ++ [0])).map Prod.fst

/-- A JSON number is scanned as the numeral that it denotes. -/
theorem scans_numeral {s : CString} (hs : NumberText s) : ∃ n, numeral s = some n ∧ Scans s n := by
  rcases parse_number_run hs with ⟨n, hn⟩
  refine ⟨n, ?_, hn⟩
  rw [numeral, hn [0] ⟨0, [], rfl, by decide⟩]
  rfl

/-! ## Strings -/

/-- The string is counted, and copied as `out`. -/
def CopiedAs (s out : CString) : Prop :=
  ∃ len, out.length ≤ len ∧ ∀ fuel rest, s.length < fuel →
    (stringLength fuel).run (s ++ quote :: rest) = some (len, quote :: rest) ∧
      (copyString fuel).run (s ++ quote :: rest) = some (out, quote :: rest)

theorem copiedAs_nil : CopiedAs [] [] := by
  refine ⟨0, Nat.le_refl _, fun fuel rest hfuel => ?_⟩
  cases fuel with
  | zero => cases hfuel
  | succ fuel =>
    rw [stringLength, copyString, List.nil_append, run_bind (peekAt_zero _), if_pos (Or.inl rfl),
      run_bind (peekAt_zero _), if_pos (Or.inl rfl)]
    exact ⟨rfl, rfl⟩

theorem copiedAs_plain {c : UInt8} {s out : CString} (hc : 32 ≤ c ∧ c ≠ quote ∧ c ≠ backslash)
    (h : CopiedAs s out) : CopiedAs (c :: s) (c :: out) := by
  rcases h with ⟨len, hroom, hread⟩
  have hplain : c ≠ quote ∧ c ≠ 0 := by
    refine ⟨hc.2.1, ?_⟩
    rintro rfl
    exact absurd hc.1 (by decide)
  refine ⟨len + 1, by simpa using hroom, fun fuel rest hfuel => ?_⟩
  cases fuel with
  | zero => cases hfuel
  | succ fuel =>
    rcases hread fuel rest (by simpa using hfuel) with ⟨hlen, hcopy⟩
    have hchar : copyChar.run (c :: (s ++ quote :: rest)) = some ([c], s ++ quote :: rest) := by
      rw [copyChar, run_bind (peekAt_zero _), if_pos hc.2.2]
      exact forward_pure_run (u := [c]) rfl
    exact ⟨stringLength_plain hplain hc.2.2 hlen, copyString_succ hplain hchar hcopy⟩

/-- An escaped character is copied as what it stands for. -/
theorem copiedAs_escape {c : UInt8} {s out : CString} (hc : c ≠ lowerU) (h : CopiedAs s out) :
    CopiedAs (backslash :: c :: s) (unescape c :: out) := by
  rcases h with ⟨len, hroom, hread⟩
  refine ⟨len + 1, by simpa using hroom, fun fuel rest hfuel => ?_⟩
  cases fuel with
  | zero => cases hfuel
  | succ fuel =>
    rw [List.length_cons, List.length_cons] at hfuel
    rcases hread fuel rest (by omega) with ⟨hlen, hcopy⟩
    have hsecond : (peekAt 1).run (backslash :: c :: (s ++ quote :: rest)) =
        some (c, backslash :: c :: (s ++ quote :: rest)) := rfl
    have hchar : copyChar.run (backslash :: c :: (s ++ quote :: rest)) =
        some ([unescape c], s ++ quote :: rest) := by
      rw [copyChar, run_bind (peekAt_zero _), if_neg (by simp), run_bind hsecond, if_neg hc]
      exact forward_pure_run (u := [backslash, c]) rfl
    exact ⟨stringLength_escape hlen, copyString_succ (by decide) hchar hcopy⟩

/-- A printed hexadecimal digit is read back. -/
theorem hexDigit_hexChar : ∀ d, d < 16 → hexDigit (hexChar d) = some d := by decide

theorem parse_hex_cons {k i h d : Nat} {c : UInt8} {bs : List UInt8} (hpeek : bs[i]? = some c)
    (hd : hexDigit c = some d) :
    (parse_hex (k + 1) i h).run bs = (parse_hex k (i + 1) (h * 16 + d)).run bs := by
  rw [parse_hex, run_bind (show (peekAt i).run bs = some (c, bs) by rw [peekAt_run, hpeek]; rfl), hd]

/-- The digits that are printed for a control character. -/
theorem parse_hex4_hexChar {a b : Nat} (ha : a < 16) (hb : b < 16) (bs : List UInt8) :
    (parse_hex4 2).run (backslash :: lowerU :: zero :: zero :: hexChar a :: hexChar b :: bs) =
      some (a * 16 + b, backslash :: lowerU :: zero :: zero :: hexChar a :: hexChar b :: bs) := by
  have hzero : hexDigit zero = some 0 := by decide
  rw [parse_hex4, parse_hex_cons rfl hzero, parse_hex_cons rfl hzero,
    parse_hex_cons rfl (hexDigit_hexChar a ha), parse_hex_cons rfl (hexDigit_hexChar b hb), parse_hex]
  simp

/-- A control character, printed as a `\u` escape, is copied as itself. -/
theorem copiedAs_control {c : UInt8} {s out : CString} (hc : c ≠ 0) (hlt : c < 32)
    (h : CopiedAs s out) :
    CopiedAs ([backslash, lowerU, zero, zero, hexChar (c.toNat / 16), hexChar (c.toNat % 16)] ++ s)
      (c :: out) := by
  rcases h with ⟨len, hroom, hread⟩
  have hnat : c.toNat < 32 := UInt8.lt_iff_toNat_lt.mp hlt
  have hpos : c.toNat ≠ 0 := fun h0 => hc (UInt8.toNat_inj.mp h0)
  -- the digits are those of the character
  have hunicode : UnicodeText [backslash, lowerU, zero, zero, hexChar (c.toNat / 16),
      hexChar (c.toNat % 16)] :=
    .unicode (by decide) (by decide) (hexChar_isHex _ (by omega)) (hexChar_isHex _ (by omega))
  refine ⟨len + 5, by rw [List.length_cons]; omega, fun fuel rest hfuel => ?_⟩
  rw [List.length_append, unicode_length hunicode] at hfuel
  rcases Nat.exists_eq_add_of_le (show 5 ≤ fuel by omega) with ⟨k, rfl⟩
  rcases hread k rest (by omega) with ⟨hlen, -⟩
  -- the escape is counted as five bytes and copied as one
  rcases hread (k + 4) rest (by omega) with ⟨-, hcopy⟩
  rw [Nat.add_comm 5 k, List.append_assoc]
  refine ⟨stringLength_unicode hunicode hlen, ?_⟩
  rcases copyChar_unicode hunicode (s ++ quote :: rest) with ⟨-, hchar⟩
  have hhex := parse_hex4_hexChar (show c.toNat / 16 < 16 by omega) (show c.toNat % 16 < 16 by omega)
    (s ++ quote :: rest)
  rw [show c.toNat / 16 * 16 + c.toNat % 16 = c.toNat by omega] at hhex
  have hutf8 : utf8 c.toNat = [c] := by
    rw [utf8, if_pos (by omega), UInt8.ofNat_toNat]
  have hrun : copyChar.run ([backslash, lowerU, zero, zero, hexChar (c.toNat / 16),
      hexChar (c.toNat % 16)] ++ (s ++ quote :: rest)) = some ([c], s ++ quote :: rest) := by
    rw [hchar, parse_unicode]
    simp only [List.cons_append, List.nil_append]
    rw [run_bind hhex, if_neg (by omega), if_neg (by omega), hutf8]
    exact forward_pure_run (u := [_, _, _, _, _, _]) rfl
  exact copyString_succ (by decide) hrun hcopy

/-- Whatever is printed for a character is copied as this character. -/
theorem copiedAs_printChar {c : UInt8} {s out : CString} (hc : c ≠ 0) (h : CopiedAs s out) :
    CopiedAs (printChar c ++ s) (c :: out) := by
  -- a plain character, one of the short escapes, or a control character
  rw [printChar]
  split_ifs with hplain h1 h2 h3 h4 h5 h6 h7
  · refine copiedAs_plain ⟨?_, hplain.2⟩ h
    have hgt : 31 < c.toNat := UInt8.lt_iff_toNat_lt.mp hplain.1
    exact UInt8.le_iff_toNat_le.mpr hgt
  · rw [h1]
    exact copiedAs_escape (by decide) h
  · rw [h2]
    exact copiedAs_escape (by decide) h
  · rw [h3]
    exact copiedAs_escape (c := 98) (by decide) h
  · rw [h4]
    exact copiedAs_escape (c := 102) (by decide) h
  · rw [h5]
    exact copiedAs_escape (c := 110) (by decide) h
  · rw [h6]
    exact copiedAs_escape (c := 114) (by decide) h
  · rw [h7]
    exact copiedAs_escape (c := 116) (by decide) h
  -- only control characters are left
  · refine copiedAs_control hc ?_ h
    have hle : ¬ c > 31 := fun hgt => hplain ⟨hgt, h2, h1⟩
    have hnat : ¬ 31 < c.toNat := fun hgt => hle (UInt8.lt_iff_toNat_lt.mpr hgt)
    exact UInt8.lt_iff_toNat_lt.mpr (show c.toNat < 32 by omega)

/-- A printed text is copied as what it was printed from. -/
theorem copiedAs_print {str : CString} (h : 0 ∉ str) : CopiedAs (str.flatMap printChar) str := by
  induction str with
  | nil => exact copiedAs_nil
  | cons c str ih =>
    rw [List.mem_cons, not_or] at h
    rw [List.flatMap_cons]
    exact copiedAs_printChar (Ne.symm h.1) (ih h.2)

/-- **Strings.**  The parser reads the string that was printed. -/
theorem spells_print {str : CString} (h : 0 ∉ str) : Spells (print_string_ptr (some str)) str := by
  intro fuel rest hfuel
  rcases copiedAs_print h with ⟨len, hroom, hread⟩
  rw [print_string_ptr] at hfuel ⊢
  rw [List.length_cons, List.length_append] at hfuel
  rcases hread fuel rest (by omega) with ⟨hlen, hcopy⟩
  have hlook : (lookahead (stringLength fuel)).run (str.flatMap printChar ++ quote :: rest) =
      some (len, str.flatMap printChar ++ quote :: rest) := by
    show ((stringLength fuel).run _).map _ = _
    rw [hlen]
    rfl
  -- the copy ends at the first NUL, of which there is none
  have hwhole : str.takeWhile (· ≠ 0) = str := by
    rw [List.takeWhile_eq_self_iff]
    intro c hc
    have hne : c ≠ 0 := fun h0 => h (h0 ▸ hc)
    simp [hne]
  rw [show quote :: (str.flatMap printChar ++ [quote]) ++ rest =
      quote :: (str.flatMap printChar ++ quote :: rest) by simp, parse_string,
    run_bind (peekAt_zero _), if_neg (by simp), run_bind (forward_one _), run_bind hlook,
    run_bind hcopy, if_neg (Nat.not_lt.mpr hroom), run_bind (accept_self _), hwhole]
  rfl

/-! ## Trees -/

section Tree

variable (double : Numeral → Rat) (S : Sprintf)

/-- The node that the parser makes where `i` was printed. -/
def rereadItem (i : Item) : Item :=
  match i.type with
  | .NULL => { newItem with type := .NULL }
  | .False => newItem
  | .True => { newItem with type := .True, valueint := 1 }
  | .Number => ((numeral (print_number S i)).map (numberItem double)).getD newItem
  | .String => { newItem with type := .String, valuestring := i.valuestring }
  | .Array => { newItem with type := .Array }
  | .Object => { newItem with type := .Object }

/-- A member of an object has its name again. -/
def renamed : Option CString → Value → Value
  | some name, v => named name v
  | none, v => v

mutual

/-- The tree that comes back. -/
def reread : Value → Value
  | .mk _ i c => .mk () (rereadItem double S i)
    (match i.type with
      | .Array => rereadAll false c
      | .Object => rereadAll true c
      | _ => [])

/-- `reread` for all values of a list, with their names or without. -/
def rereadAll : Bool → List Value → List Value
  | _, [] => []
  | names, v :: vs =>
    renamed (if names then v.item.string else none) (reread v) :: rereadAll names vs

end

end Tree

section Tree

variable {double : Numeral → Rat} {S : Sprintf} {fmt : Bool}

/-- Elements of an array come back without names. -/
theorem rereadAll_false (vs : List Value) :
    rereadAll double S false vs = vs.map (reread double S) := by
  induction vs with
  | nil => rfl
  | cons v vs ih =>
    rw [rereadAll, ih]
    rfl

/-- Members of an object come back with their names. -/
theorem rereadAll_true (vs : List Value) :
    rereadAll double S true vs = vs.map fun v => renamed v.item.string (reread double S v) := by
  induction vs with
  | nil => rfl
  | cons v vs ih =>
    rw [rereadAll, ih]
    rfl

/-- A C string that is there. -/
def Given (str : Option CString) : Prop := ∃ s, str = some s ∧ 0 ∉ s

mutual

/-- The strings and the names of members are there. -/
def Clean : Value → Prop
  | .mk _ i c => (i.type = .String → Given i.valuestring) ∧
      (i.type = .Object → ∀ v ∈ c, Given v.item.string) ∧ CleanAll c

/-- `Clean` for all values of a list. -/
def CleanAll : List Value → Prop
  | [] => True
  | v :: vs => Clean v ∧ CleanAll vs

end

/-- `CleanAll` says so of every value. -/
theorem cleanAll_iff {vs : List Value} : CleanAll vs ↔ ∀ v ∈ vs, Clean v := by
  induction vs with
  | nil => simp [CleanAll]
  | cons v vs ih => simp [CleanAll, ih]

/-- The white space of the printer. -/
def Gap (fmt : Bool) (w : CString) : Prop := Ws w ∧ (fmt = false → w = [])

theorem gap_nil (fmt : Bool) : Gap fmt [] := ⟨ws_nil, fun _ => rfl⟩

theorem gap_ite (fmt : Bool) {c : UInt8} (hc : c = 32 ∨ c = 9 ∨ c = 10 ∨ c = 13) :
    Gap fmt (if fmt then [c] else []) := ⟨ws_ite fmt hc, by rintro rfl; rfl⟩

theorem gap_newline (fmt : Bool) : Gap fmt (newline fmt) := ⟨newline_ws fmt, by rintro rfl; rfl⟩

theorem gap_tabs (fmt : Bool) (depth : Nat) : Gap fmt (tabs fmt depth) :=
  ⟨tabs_ws fmt depth, by rintro rfl; rfl⟩

/-- Gaps behind gaps are gaps. -/
theorem gap_append {v w : CString} (hv : Gap fmt v) (hw : Gap fmt w) : Gap fmt (v ++ w) :=
  ⟨ws_append hv.1 hw.1, fun h => by rw [hv.2 h, hw.2 h]; rfl⟩

/-- Printed elements behind the first one say the elements. -/
theorem says_entries {depth : Nat} {vs : List Value}
    (h : ∀ v ∈ vs, Says double (Gap fmt) .value (print_value S fmt (depth + 1) v) [reread double S v]) :
    Says double (Gap fmt) (.rest .array) ((if vs.isEmpty then [] else comma ::
      (if fmt then [32] else [])) ++ (print_entries S fmt depth vs ++ [rbracket]))
      (vs.map (reread double S)) := by
  induction vs with
  | nil => exact .close .array
  | cons v vs ih =>
    have hrest := ih fun v' hv' => h v' (List.mem_cons_of_mem v hv')
    have hitem := Says.element (h v List.mem_cons_self) (gap_nil fmt)
    have hspoken := Says.next (gap_ite fmt (c := 32) (Or.inl rfl)) hitem hrest
    simpa [print_entries] using hspoken

/-- A printed array says the array of what its elements come back as. -/
theorem says_array {depth : Nat} {vs : List Value}
    (h : ∀ v ∈ vs, Says double (Gap fmt) .value (print_value S fmt (depth + 1) v) [reread double S v]) :
    Says double (Gap fmt) .value (lbracket :: (print_entries S fmt depth vs ++ [rbracket]))
      [Kind.array.node (vs.map (reread double S))] := by
  cases vs with
  | nil => exact .empty .array (gap_nil fmt)
  | cons v vs =>
    have hrest := says_entries fun v' hv' => h v' (List.mem_cons_of_mem v hv')
    have hitem := Says.element (h v List.mem_cons_self) (gap_nil fmt)
    have hspoken := Says.container (k := .array) (gap_nil fmt) hitem hrest
    simpa [print_entries, Kind.opening] using hspoken

/-- Printed members say the members, with the first one apart. -/
theorem says_members {depth : Nat} {vs : List Value} :
    ∀ {v : Value}, (∀ v' ∈ v :: vs, Says double (Gap fmt) .value (print_value S fmt (depth + 1) v')
        [reread double S v']) → (∀ v' ∈ v :: vs, Given v'.item.string) →
      ∃ i r, Says double (Gap fmt) (.item .object) i [renamed v.item.string (reread double S v)] ∧
        Says double (Gap fmt) (.rest .object) r
          (vs.map fun v' => renamed v'.item.string (reread double S v')) ∧
        print_members S fmt depth (v :: vs) ++ (tabs fmt depth ++ [rbrace]) =
          tabs fmt (depth + 1) ++ (i ++ r) := by
  have htab : Gap fmt (if fmt then [9] else []) := gap_ite fmt (Or.inr (Or.inl rfl))
  -- induction on the members behind the first one, which all have names
  induction vs with
  | nil =>
    intro v h hnames
    rcases hnames v List.mem_cons_self with ⟨name, hname, hclean⟩
    have hspace := gap_append (gap_newline fmt) (gap_tabs fmt depth)
    rw [hname]
    refine ⟨_, _, .member (print_string_text rfl) (spells_print hclean) (gap_nil fmt) htab
      (h v List.mem_cons_self) hspace, .close .object, ?_⟩
    simp [print_members, Kind.close, hname]
  | cons v' vs ih =>
    intro v h hnames
    rcases ih (fun x hx => h x (List.mem_cons_of_mem v hx))
      (fun x hx => hnames x (List.mem_cons_of_mem v hx)) with ⟨i, r, hi, hr, heq⟩
    rcases hnames v List.mem_cons_self with ⟨name, hname, hclean⟩
    have hspace := gap_append (gap_newline fmt) (gap_tabs fmt (depth + 1))
    rw [hname]
    refine ⟨_, _, .member (print_string_text rfl) (spells_print hclean) (gap_nil fmt) htab
      (h v List.mem_cons_self) (gap_nil fmt), .next hspace hi hr, ?_⟩
    rw [print_members]
    simp only [List.isEmpty_cons, Bool.false_eq_true, if_false, List.append_assoc, List.cons_append,
      List.nil_append, List.append_nil, heq, hname]

/-- A printed object says the object of what its members come back as. -/
theorem says_object {depth : Nat} {vs : List Value}
    (h : ∀ v ∈ vs, Says double (Gap fmt) .value (print_value S fmt (depth + 1) v) [reread double S v])
    (hnames : ∀ v ∈ vs, Given v.item.string) :
    Says double (Gap fmt) .value
      (if vs.isEmpty then lbrace :: (newline fmt ++ tabs fmt (depth - 1) ++ [rbrace])
        else lbrace :: (newline fmt ++ (print_members S fmt depth vs ++ (tabs fmt depth ++ [rbrace]))))
      [Kind.object.node (vs.map fun v => renamed v.item.string (reread double S v))] := by
  cases vs with
  | nil => exact .empty .object (gap_append (gap_newline fmt) (gap_tabs fmt (depth - 1)))
  | cons v vs =>
    rcases says_members h hnames with ⟨i, r, hi, hr, heq⟩
    have hspoken := Says.container (gap_append (gap_newline fmt) (gap_tabs fmt (depth + 1))) hi hr
    rw [List.isEmpty_cons, if_neg Bool.false_ne_true, heq, ← List.append_assoc]
    exact hspoken

mutual

/-- What is printed says what comes back. -/
theorem says_print : (v : Value) → Clean v → ∀ depth,
    Says double (Gap fmt) .value (print_value S fmt depth v) [reread double S v]
  | .mk _ i c, h, depth => by
    rcases h with ⟨hstring, hnames, hall⟩
    have hc := says_print_all c hall (depth + 1)
    rw [print_value, reread, rereadItem]
    -- one case for each type of a node
    cases ht : i.type with
    | NULL => exact .null
    | False => exact .false
    | True => exact .true
    | Number =>
      rcases scans_numeral (print_number_text S i) with ⟨n, hn, hscans⟩
      rw [hn]
      exact .number (print_number_text S i) hscans
    | String =>
      rcases hstring ht with ⟨str, hstr, hclean⟩
      rw [hstr]
      exact .string (print_string_text rfl) (spells_print hclean)
    | Array =>
      rw [rereadAll_false]
      exact says_array hc
    | Object =>
      rw [rereadAll_true]
      exact says_object hc (hnames ht)

/-- The same for a list of values. -/
theorem says_print_all : (vs : List Value) → CleanAll vs → ∀ depth, ∀ v ∈ vs,
    Says double (Gap fmt) .value (print_value S fmt depth v) [reread double S v]
  | [], _, _ => fun _ hv => nomatch hv
  | v :: vs, h, depth => by
    have hv := says_print v h.1 depth
    have hvs := says_print_all vs h.2 depth
    intro v' hv'
    rcases List.mem_cons.mp hv' with rfl | hv'
    · exact hv
    · exact hvs v' hv'

end

/-- **Printed and parsed.** -/
theorem parse_print {v : Value} (h : Clean v) (fmt : Bool) (behind : List UInt8) {fuel : Nat}
    (hfuel : (print_value S fmt 0 v).length < fuel) :
    cJSON_Parse double fuel (print_value S fmt 0 v ++ 0 :: behind) = some (some (reread double S v)) :=
  says_parse ws_nil ((says_print v h 0).mono fun _ hw => hw.1) ws_nil behind hfuel

/-- A string of two control characters, in an object. -/
def sampleObject : Value := Kind.object.node [named [97] (createString [10, 1]), named [98] createArray]

theorem parse_print_sample :
    cJSON_Parse (fun _ => 0) 40 (print_value .zeros true 0 sampleObject ++ [0]) =
      some (some (reread (fun _ => 0) .zeros sampleObject)) := by
  have hclean : Clean sampleObject := by
    refine ⟨nofun, fun _ v hv => ?_, ⟨fun _ => ⟨_, rfl, by decide⟩, nofun, trivial⟩,
      ⟨nofun, nofun, trivial⟩, trivial⟩
    simp at hv
    rcases hv with rfl | rfl
    · exact ⟨[97], rfl, by decide⟩
    · exact ⟨[98], rfl, by decide⟩
  exact parse_print hclean true [] (by decide)

end Tree

/-! ## Trees that come back -/

/-- The trees that the parser builds. -/
inductive Canonical : Value → Prop
  | null : Canonical (leaf { newItem with type := .NULL })
  | false : Canonical (leaf newItem)
  | true : Canonical (leaf { newItem with type := .True, valueint := 1 })
  | number (x : Rat) :
      Canonical (leaf { newItem with type := .Number, valuedouble := x, valueint := toInt x })
  | string {s : CString} (h : 0 ∉ s) :
      Canonical (leaf { newItem with type := .String, valuestring := some s })
  | array {vs : List Value} (h : ∀ v ∈ vs, Canonical v) : Canonical (Kind.array.node vs)
  | object {ms : List (CString × Value)} (hnames : ∀ m ∈ ms, 0 ∉ m.1) (h : ∀ m ∈ ms, Canonical m.2) :
      Canonical (Kind.object.node (ms.map fun m => named m.1 m.2))

section Parsed

open Ensures

/-- A text from the parser holds no NUL. -/
theorem parse_string_ensures (fuel : Nat) : Ensures (parse_string fuel) (OfSome fun s => 0 ∉ s) := by
  refine bind_any fun c => .ite (.pure ofSome_none) (bind_any fun _ => bind_any fun len =>
    bind_any fun out => .ite .nothing (bind_any fun _ => .pure (ofSome_some fun h => ?_)))
  simpa using List.mem_takeWhile_imp h

/-- A member from the parser is a canonical value with a name. -/
theorem parse_member_canonical (fuel : Nat) {value : Parser UInt8 (Option Value)}
    (h : Ensures value (OfSome Canonical)) :
    Ensures (parse_member fuel value)
      (OfSome fun v => ∃ m : CString × Value, 0 ∉ m.1 ∧ Canonical m.2 ∧ v = named m.1 m.2) := by
  refine (parse_string_ensures fuel).andThen fun name hname => bind_any fun _ => bind_any fun c =>
    .ite (.pure ofSome_none) ?_
  refine bind_any fun _ => bind_any fun _ => h.andThen fun v hv => bind_any fun _ => ?_
  exact .pure (ofSome_some ⟨(name, v), hname, hv, rfl⟩)

/-- Members with their names. -/
theorem exists_members {vs : List Value}
    (h : ∀ v ∈ vs, ∃ m : CString × Value, 0 ∉ m.1 ∧ Canonical m.2 ∧ v = named m.1 m.2) :
    ∃ ms : List (CString × Value), (∀ m ∈ ms, 0 ∉ m.1) ∧ (∀ m ∈ ms, Canonical m.2) ∧
      vs = ms.map fun m => named m.1 m.2 := by
  induction vs with
  | nil => exact ⟨[], by simp, by simp, rfl⟩
  | cons v vs ih =>
    rcases h v (by simp) with ⟨m, hname, hv, rfl⟩
    rcases ih fun v' hv' => h v' (by simp [hv']) with ⟨ms, hnames, hvs, rfl⟩
    refine ⟨m :: ms, fun m' hm' => ?_, fun m' hm' => ?_, rfl⟩
    · rcases List.mem_cons.mp hm' with rfl | hm'
      · exact hname
      · exact hnames m' hm'
    · rcases List.mem_cons.mp hm' with rfl | hm'
      · exact hv
      · exact hvs m' hm'

theorem parse_other_canonical (double : Numeral → Rat) (fuel : Nat)
    {value : Parser UInt8 (Option Value)} (h : Ensures value (OfSome Canonical)) :
    Ensures (parse_other double fuel value) (OfSome Canonical) := by
  refine bind_any fun c => .ite ?_ (.ite ?_ (.ite ?_ (.ite ?_ (.pure ofSome_none))))
  · exact (parse_string_ensures fuel).andThen fun s hs => .pure (ofSome_some (.string hs))
  · exact bind_any fun n => .pure (ofSome_some (.number _))
  · have hitem : Ensures (parse_element value) (OfSome Canonical) :=
      h.andThen fun _ hv => bind_any fun _ => .pure (ofSome_some hv)
    exact (parse_items_ensures hitem fuel).andThen fun vs hvs => .pure (ofSome_some (.array hvs))
  · refine (parse_items_ensures (parse_member_canonical fuel h) fuel).andThen fun vs hvs => ?_
    rcases exists_members hvs with ⟨ms, hnames, hms, rfl⟩
    exact .pure (ofSome_some (.object hnames hms))

/-- **Parsed trees** are canonical. -/
theorem parse_value_canonical (double : Numeral → Rat) (fuel : Nat) :
    Ensures (parse_value double fuel) (OfSome Canonical) := by
  have hword : ∀ {lit : CString} {i : Item} {p : Parser UInt8 (Option Value)}, Canonical (leaf i) →
      Ensures p (OfSome Canonical) → Ensures (literal lit i p) (OfSome Canonical) :=
    fun hi h => bind_any fun _ => .ite (bind_any fun _ => .pure (ofSome_some hi)) h
  induction fuel with
  | zero => exact .nothing
  | succ fuel ih => exact hword .null (hword .false (hword .true (parse_other_canonical double fuel ih)))

variable {double : Numeral → Rat} {fuel : Nat} {input : List UInt8} {v : Value}

theorem cJSON_Parse_canonical (h : cJSON_Parse double fuel input = some (some v)) : Canonical v := by
  rcases Option.map_eq_some_iff.mp h with ⟨⟨r, rest⟩, hrun, heq⟩
  cases heq
  have hensures : Ensures (do skip; parse_value double fuel) (OfSome Canonical) :=
    bind_any fun _ => parse_value_canonical double fuel
  exact hensures _ _ _ hrun v rfl

/-- So is the tree of a wrapper after `parse(input)`. -/
theorem parse_canonical (h : parse double fuel input = some (some v)) : Canonical v := by
  cases input with
  | nil => cases h
  | cons c s =>
    rw [parse] at h
    split at h
    · cases h
    · exact cJSON_Parse_canonical h

/-- What all items of a parsed tree are like; a member has its name besides. -/
theorem Canonical.forall_items {P : Item → Prop} (hname : ∀ i s, P i → P (i.withString s))
    (hbare : ∀ i : Item, i.type ≠ .Number → i.valuestring = none → P i)
    (hnumber : ∀ x, P { newItem with type := .Number, valuedouble := x, valueint := toInt x })
    (hstring : ∀ s, 0 ∉ s → P { newItem with type := .String, valuestring := some s })
    (h : Canonical v) : ∀ i ∈ v.items, P i := by
  induction h with
  | null | false | true =>
    intro i hi
    obtain rfl := List.mem_singleton.mp hi
    exact hbare _ nofun rfl
  | number x =>
    intro i hi
    obtain rfl := List.mem_singleton.mp hi
    exact hnumber x
  | string hs =>
    intro i hi
    obtain rfl := List.mem_singleton.mp hi
    exact hstring _ hs
  | array _ ih =>
    intro i hi
    rcases List.mem_cons.mp hi with rfl | hi
    · exact hbare _ nofun rfl
    · rcases mem_itemsAll.mp hi with ⟨v, hv, hi⟩
      exact ih v hv i hi
  | object _ _ ih =>
    intro i hi
    rcases List.mem_cons.mp hi with rfl | hi
    · exact hbare _ nofun rfl
    · rcases mem_itemsAll.mp hi with ⟨v, hv, hi⟩
      rcases List.mem_map.mp hv with ⟨m, hm, rfl⟩
      have hm := ih m hm
      rw [items_eq] at hm
      rw [named, items_withItem] at hi
      -- the name is written into the item of the member, and the rest stays
      rcases List.mem_cons.mp hi with rfl | hi
      · exact hname _ _ (hm m.2.item List.mem_cons_self)
      · exact hm i (List.mem_cons_of_mem _ hi)

/-- The `int` of a parsed number is what its `double` converts to. -/
theorem Canonical.valueint (h : Canonical v) :
    ∀ i ∈ v.items, i.type = .Number → i.valueint = toInt i.valuedouble :=
  h.forall_items (P := fun i => i.type = .Number → i.valueint = toInt i.valuedouble)
    (fun _ _ hi => hi) (fun _ hne _ htype => absurd htype hne) (fun _ _ => rfl)
    (fun _ _ htype => nomatch htype)

/-- A parsed string ends before the first NUL. -/
theorem Canonical.valuestring (h : Canonical v) :
    ∀ i ∈ v.items, ∀ s, i.valuestring = some s → 0 ∉ s := by
  refine h.forall_items (P := fun i => ∀ s, i.valuestring = some s → 0 ∉ s) (fun _ _ hi => hi) ?_ ?_ ?_
  · intro i _ hnone s hs
    rw [hnone] at hs
    cases hs
  · intro x s hs
    cases hs
  · intro s hzero s' hs'
    cases hs'
    exact hzero

end Parsed

section Tree

variable {double : Numeral → Rat} {S : Sprintf}

/-- A named value has that name. -/
theorem named_string_eq (name : CString) (v : Value) : (named name v).item.string = some name := by
  rw [named, item_withItem]
  rfl

/-- A clean value stays clean under a name. -/
theorem clean_named (name : CString) {v : Value} (h : Clean v) : Clean (named name v) := by
  cases v
  exact h

/-- A canonical value is clean. -/
theorem Canonical.clean {v : Value} (h : Canonical v) : Clean v := by
  induction h with
  | null | false | true | number => exact ⟨nofun, nofun, trivial⟩
  | string hs => exact ⟨fun _ => ⟨_, rfl, hs⟩, nofun, trivial⟩
  | array _ ih => exact ⟨nofun, nofun, cleanAll_iff.mpr ih⟩
  | object hnames _ ih =>
    refine ⟨nofun, fun _ v hv => ?_, cleanAll_iff.mpr fun v hv => ?_⟩
    · rcases List.mem_map.mp hv with ⟨m, hm, rfl⟩
      exact ⟨m.1, named_string_eq _ _, hnames m hm⟩
    · rcases List.mem_map.mp hv with ⟨m, hm, rfl⟩
      exact clean_named m.1 (ih m hm)

variable (double S)

mutual

/-- `double` makes of each number that is printed the same number again. -/
def Survives : Value → Prop
  | .mk _ i c => (i.type = .Number →
      (numeral (print_number S i)).map double = some i.valuedouble) ∧ SurvivesAll c

/-- `Survives` for all values of a list. -/
def SurvivesAll : List Value → Prop
  | [] => True
  | v :: vs => Survives v ∧ SurvivesAll vs

end

variable {double S}

/-- `SurvivesAll` says so of every value. -/
theorem survivesAll_iff {vs : List Value} : SurvivesAll double S vs ↔ ∀ v ∈ vs, Survives double S v := by
  induction vs with
  | nil => simp [SurvivesAll]
  | cons v vs ih => simp [SurvivesAll, ih]

/-- Whether a value survives does not depend on its name. -/
theorem survives_named (name : CString) (v : Value) :
    Survives double S (named name v) ↔ Survives double S v := by
  cases v
  exact Iff.rfl

/-- An item comes back without a name. -/
theorem rereadItem_string (i : Item) : (rereadItem double S i).string = none := by
  rw [rereadItem]
  split <;> try rfl
  cases numeral (print_number S i) <;> rfl

/-- The name of the old tree is lost. -/
theorem reread_string (v : Value) : (reread double S v).item.string = none := by
  cases v
  exact rereadItem_string _

/-- What a value comes back as does not depend on its name. -/
theorem reread_named (name : CString) (v : Value) :
    reread double S (named name v) = reread double S v := by
  cases v
  rfl

/-- A canonical value has no name of its own. -/
theorem Canonical.item_string {v : Value} (h : Canonical v) : v.item.string = none := by
  cases h <;> rfl

/-- Named values are equal only if the values are. -/
theorem named_inj {name : CString} {v w : Value} (hv : v.item.string = none)
    (hw : w.item.string = none) (h : named name v = named name w) : v = w := by
  rcases v with ⟨a, ⟨t, s, n, x, str⟩, c⟩
  rcases w with ⟨b, ⟨t', s', n', x', str'⟩, d⟩
  cases hv
  cases hw
  simp [named, Item.withString, withItem, item] at h
  simp [h]

/-- Arrays and objects are equal exactly if their children are. -/
theorem node_inj {k : Kind} {vs ws : List Value} : k.node vs = k.node ws ↔ vs = ws := by
  cases k <;> simp [Kind.node]

/-- Named members come back with their names. -/
theorem rereadAll_members (ms : List (CString × Value)) :
    rereadAll double S true (ms.map fun m => named m.1 m.2) =
      ms.map fun m => named m.1 (reread double S m.2) := by
  rw [rereadAll_true, List.map_map]
  refine List.map_congr_left fun m _ => ?_
  show renamed (named m.1 m.2).item.string (reread double S (named m.1 m.2)) = _
  rw [named_string_eq, reread_named]
  rfl

/-- A number comes back exactly if its text is read as the same number. -/
theorem number_reread_iff (x : Rat) :
    reread double S (leaf { newItem with type := .Number, valuedouble := x, valueint := toInt x }) =
      leaf { newItem with type := .Number, valuedouble := x, valueint := toInt x } ↔
    Survives double S (leaf { newItem with type := .Number, valuedouble := x, valueint := toInt x }) := by
  rcases scans_numeral (print_number_text S
    { newItem with type := .Number, valuedouble := x, valueint := toInt x }) with ⟨n, hn, -⟩
  have hreread : reread double S
      (leaf { newItem with type := .Number, valuedouble := x, valueint := toInt x }) =
      leaf (numberItem double n) := by
    simp [reread, leaf, rereadItem, hn]
  -- only the text of the number decides
  have hsurvives : Survives double S
      (leaf { newItem with type := .Number, valuedouble := x, valueint := toInt x }) ↔
      double n = x := by
    simp [Survives, leaf, hn, SurvivesAll]
  rw [hreread, hsurvives]
  constructor
  · intro h
    exact congrArg (fun v : Value => v.item.valuedouble) h
  · rintro rfl
    rfl

/-- A canonical tree comes back as it was exactly when its numbers survive. -/
theorem Canonical.reread_iff {v : Value} (h : Canonical v) :
    reread double S v = v ↔ Survives double S v := by
  -- induction on canonical values: a container comes back exactly if all its children do
  induction h with
  | null | false | true | string => exact ⟨fun _ => ⟨nofun, trivial⟩, fun _ => rfl⟩
  | number x => exact number_reread_iff x
  | @array vs _ ih =>
    calc reread double S (Kind.array.node vs) = Kind.array.node vs
        ↔ rereadAll double S Bool.false vs = vs := node_inj (k := .array)
      _ ↔ ∀ v ∈ vs, reread double S v = v := by
        rw [rereadAll_false, ← List.map_inj_left, List.map_id']
      _ ↔ ∀ v ∈ vs, Survives double S v := forall₂_congr ih
      _ ↔ Survives double S (Kind.array.node vs) := by simp [Kind.node, Survives, survivesAll_iff]
  | @object ms _ hms ih =>
    calc reread double S (Kind.object.node (ms.map fun m => named m.1 m.2)) =
          Kind.object.node (ms.map fun m => named m.1 m.2)
        ↔ rereadAll double S Bool.true (ms.map fun m => named m.1 m.2) =
            ms.map fun m => named m.1 m.2 := node_inj (k := .object)
      _ ↔ ∀ m ∈ ms, named m.1 (reread double S m.2) = named m.1 m.2 := by
        rw [rereadAll_members, List.map_inj_left]
      _ ↔ ∀ m ∈ ms, reread double S m.2 = m.2 := forall₂_congr fun m hm =>
        ⟨named_inj (reread_string _) (hms m hm).item_string, congrArg _⟩
      _ ↔ ∀ m ∈ ms, Survives double S m.2 := forall₂_congr ih
      _ ↔ Survives double S (Kind.object.node (ms.map fun m => named m.1 m.2)) := by
        simp only [Kind.node, Survives, survivesAll_iff, List.forall_mem_map, survives_named]
        simp

/-- **What comes back.**  The parser undoes the printer exactly on the trees that it could have built
    itself and of which each number survives. -/
theorem undoes_iff (w : Value) :
    Undoes double S w ↔ Canonical w ∧ Survives double S w := by
  constructor
  · rintro ⟨N, hundoes⟩
    have hcanonical : Canonical w := cJSON_Parse_canonical (hundoes N (Nat.le_refl N))
    refine ⟨hcanonical, hcanonical.reread_iff.mp ?_⟩
    have hback : cJSON_Parse double _ (print_value S true 0 w ++ [0]) = some (some (reread double S w)) :=
      parse_print hcanonical.clean true [] (Nat.lt_succ_of_le (Nat.le_max_left _ N))
    have hself := hundoes _ (Nat.le_succ_of_le (Nat.le_max_right (print_value S true 0 w).length N))
    rw [cJSON_Print, hback] at hself
    exact Option.some.inj (Option.some.inj hself)
  · rintro ⟨hcanonical, hsurvives⟩
    refine ⟨(print_value S true 0 w).length + 1, fun fuel hfuel => ?_⟩
    have hback : cJSON_Parse double fuel (print_value S true 0 w ++ [0]) = some (some (reread double S w)) :=
      parse_print hcanonical.clean true [] hfuel
    rwa [hcanonical.reread_iff.mpr hsurvives] at hback

end Tree

end Cjson

end Turnserver
