/-
  PRINTING JSON (`new_elbs/cJSON.cc`, 118–138, 215–251, 283–317, 348–403, 442–508).

  `print_value` writes a text of the grammar for every value whose strings and names are there
  (`print_value_json`), and the values that the parser builds are of that kind
  (`parse_value_printable`).  Allocation succeeds; `Sprintf` is what the C library makes of numbers.
-/
import Turnserver.Json.Grammar

namespace Turnserver

namespace Cjson

open Parsing Cursor Ascii LinkedTree Node

/-! ## Numbers and strings -/

/-- The formats of numbers, each of which gives a number of the grammar. -/
structure Sprintf where
  /-- `%d` -/
  d : Int → CString
  /-- `%.0f` -/
  f0 : Rat → CString
  /-- `%e` -/
  e : Rat → CString
  /-- `%f` -/
  f : Rat → CString
  d_number : ∀ i, NumberText (d i)
  f0_number : ∀ x, NumberText (f0 x)
  e_number : ∀ x, NumberText (e x)
  f_number : ∀ x, NumberText (f x)

/-- `fabs` -/
def fabs (d : Rat) : Rat := if d < 0 then -d else d

/-- `DBL_EPSILON` -/
def DBL_EPSILON : Rat := 1 / 2 ^ 52

/-- `print_number`: as an integer where the value is one, else by its size. -/
def print_number (S : Sprintf) (item : Item) : CString :=
  let d := item.valuedouble
  if fabs (item.valueint - d) ≤ DBL_EPSILON ∧ d ≤ 2147483647 ∧ d ≥ -2147483648 then
    S.d item.valueint
  else if fabs (d.floor - d) ≤ DBL_EPSILON ∧ fabs d < 10 ^ 60 then S.f0 d
  else if fabs d < 1 / 10 ^ 6 ∨ fabs d > 10 ^ 9 then S.e d
  else S.f d

/-- A digit of `%x` -/
def hexChar (d : Nat) : UInt8 := .ofNat (if d < 10 then 48 + d else 87 + d)

/-- What is written for the character `token`. -/
def printChar (token : UInt8) : CString :=
  if token > 31 ∧ token ≠ quote ∧ token ≠ backslash then [token]
  else if token = backslash then [backslash, backslash]
  else if token = quote then [backslash, quote]
  else if token = 8 then [backslash, 98]
  else if token = 12 then [backslash, 102]
  else if token = 10 then [backslash, 110]
  else if token = 13 then [backslash, 114]
  else if token = 9 then [backslash, 116]
  else [backslash, lowerU, zero, zero, hexChar (token.toNat / 16), hexChar (token.toNat % 16)]

/-- `print_string_ptr`: without a text nothing is printed. -/
def print_string_ptr : Option CString → CString
  | none => []
  | some str => quote :: (str.flatMap printChar ++ [quote])

/-! ## Values -/

/-- A new line, where the text is formatted. -/
def newline (fmt : Bool) : CString := if fmt then [10] else []

/-- `for (i=0;i<depth;i++) *ptr++='\t'` -/
def tabs (fmt : Bool) (depth : Nat) : CString := if fmt then List.replicate depth 9 else []

section Print

variable (S : Sprintf) (fmt : Bool)

mutual

/-- `print_value`, with `print_array` and `print_object` at their depth. -/
def print_value : Nat → Value → CString
  | depth, .mk _ i c =>
    match i.type with
    | .NULL => ascii "null"
    | .False => ascii "false"
    | .True => ascii "true"
    | .Number => print_number S i
    | .String => print_string_ptr i.valuestring
    | .Array => lbracket :: (print_entries depth c ++ [rbracket])
    | .Object =>
      if c.isEmpty then lbrace :: (newline fmt ++ tabs fmt (depth - 1) ++ [rbrace])
      else lbrace :: (newline fmt ++ (print_members depth c ++ (tabs fmt depth ++ [rbrace])))

/-- The entries of an array. -/
def print_entries : Nat → List Value → CString
  | _, [] => []
  | depth, v :: vs =>
    print_value (depth + 1) v ++
      ((if vs.isEmpty then [] else comma :: (if fmt then [32] else [])) ++ print_entries depth vs)

/-- The names and entries of an object. -/
def print_members : Nat → List Value → CString
  | _, [] => []
  | depth, v :: vs =>
    tabs fmt (depth + 1) ++ (print_string_ptr v.item.string ++ colon :: ((if fmt then [9] else []) ++
      (print_value (depth + 1) v ++
        ((if vs.isEmpty then [] else [comma]) ++ (newline fmt ++ print_members depth vs)))))

end

end Print

/-- `cJSON_Print(item)` -/
def cJSON_Print (S : Sprintf) (item : Value) : CString := print_value S true 0 item

/-! ## What is printed is JSON -/

mutual

/-- The strings and the names of members are there. -/
def Printable : Value → Prop
  | .mk _ i c => (i.type = .String → i.valuestring.isSome) ∧
      (i.type = .Object → ∀ v ∈ c, v.item.string.isSome) ∧ PrintableAll c

/-- `Printable` for all values of a list. -/
def PrintableAll : List Value → Prop
  | [] => True
  | v :: vs => Printable v ∧ PrintableAll vs

end

/-- A printed number is a JSON number. -/
theorem print_number_text (S : Sprintf) (item : Item) : NumberText (print_number S item) := by
  rw [print_number]
  split_ifs
  · exact S.d_number _
  · exact S.f0_number _
  · exact S.e_number _
  · exact S.f_number _

/-- The digits of `%04x` are hexadecimal. -/
theorem hexChar_isHex : ∀ d, d < 16 → IsHex (hexChar d) := by decide

/-- A printed character can stand between quotes. -/
theorem printChar_text (c : UInt8) : CharText (printChar c) := by
  rw [printChar]
  split_ifs with h
  · refine .plain ⟨?_, h.2⟩
    have hgt : 31 < c.toNat := UInt8.lt_iff_toNat_lt.mp h.1
    exact UInt8.le_iff_toNat_le.mpr hgt
  · exact .escape (by decide)
  · exact .escape (by decide)
  · exact .escape (by decide)
  · exact .escape (by decide)
  · exact .escape (by decide)
  · exact .escape (by decide)
  · exact .escape (by decide)
  · have hlt : c.toNat < 256 := c.toNat_lt
    exact .unicode (by decide) (by decide) (hexChar_isHex _ (by omega)) (hexChar_isHex _ (by omega))

/-- A printed text is a JSON string. -/
theorem print_string_text {str : Option CString} (h : str.isSome) :
    StringText (print_string_ptr str) := by
  obtain ⟨s, rfl⟩ := Option.isSome_iff_exists.mp h
  refine .quoted ?_
  induction s with
  | nil => exact .nil
  | cons c s ih => exact .cons (printChar_text c) (ih rfl)

theorem newline_ws (fmt : Bool) : Ws (newline fmt) := by
  intro c hc
  cases fmt with
  | false => cases hc
  | true => exact Or.inr (Or.inr (Or.inl (List.mem_singleton.mp hc)))

theorem tabs_ws (fmt : Bool) (depth : Nat) : Ws (tabs fmt depth) := by
  intro c hc
  cases fmt with
  | false => cases hc
  | true => exact Or.inr (Or.inl (List.eq_of_mem_replicate hc))

/-- Blanks behind blanks are blank. -/
theorem ws_append {v w : CString} (hv : Ws v) (hw : Ws w) : Ws (v ++ w) := by
  intro c hc
  rcases List.mem_append.mp hc with hc | hc
  · exact hv c hc
  · exact hw c hc

theorem ws_ite (fmt : Bool) {c : UInt8} (hc : c = 32 ∨ c = 9 ∨ c = 10 ∨ c = 13) :
    Ws (if fmt then [c] else []) := by
  intro x hx
  cases fmt with
  | false => cases hx
  | true =>
    rw [List.mem_singleton.mp hx]
    exact hc

section Print

variable {S : Sprintf} {fmt : Bool}

/-- What follows the items that have been printed. -/
theorem print_entries_json {depth : Nat} {vs : List Value}
    (h : ∀ v ∈ vs, Json .value (print_value S fmt (depth + 1) v)) :
    Json (.rest .array) ((if vs.isEmpty then [] else comma :: (if fmt then [32] else [])) ++
      (print_entries S fmt depth vs ++ [rbracket])) := by
  induction vs with
  | nil => exact .close .array
  | cons v vs ih =>
    have hrest := ih fun v' hv' => h v' (List.mem_cons_of_mem v hv')
    have hitem := Json.element (h v List.mem_cons_self) ws_nil
    have hjson := Json.next (ws_ite fmt (c := 32) (Or.inl rfl)) hitem hrest
    simpa [print_entries] using hjson

/-- Printed members are the items of an object, with the first one apart. -/
theorem print_members_json {depth : Nat} {vs : List Value} :
    ∀ {v : Value}, (∀ v' ∈ v :: vs, Json .value (print_value S fmt (depth + 1) v')) →
      (∀ v' ∈ v :: vs, v'.item.string.isSome) →
      ∃ i r, Json (.item .object) i ∧ Json (.rest .object) r ∧
        print_members S fmt depth (v :: vs) ++ (tabs fmt depth ++ [rbrace]) =
          tabs fmt (depth + 1) ++ (i ++ r) := by
  have htab : Ws (if fmt then [9] else []) := ws_ite fmt (Or.inr (Or.inl rfl))
  -- induction on the members behind the first one: a comma stands between two of them
  induction vs with
  | nil =>
    intro v h hnames
    have hspace := ws_append (newline_ws fmt) (tabs_ws fmt depth)
    refine ⟨_, _, .member (print_string_text (hnames v List.mem_cons_self)) ws_nil htab
      (h v List.mem_cons_self) hspace, .close .object, ?_⟩
    simp [print_members, Kind.close]
  | cons v' vs ih =>
    intro v h hnames
    obtain ⟨i, r, hi, hr, heq⟩ := ih (fun x hx => h x (List.mem_cons_of_mem v hx))
      fun x hx => hnames x (List.mem_cons_of_mem v hx)
    have hspace := ws_append (newline_ws fmt) (tabs_ws fmt (depth + 1))
    refine ⟨_, _, .member (print_string_text (hnames v List.mem_cons_self)) ws_nil htab
      (h v List.mem_cons_self) ws_nil, .next hspace hi hr, ?_⟩
    rw [print_members]
    simp only [List.isEmpty_cons, Bool.false_eq_true, if_false, List.append_assoc, List.cons_append,
      List.nil_append, List.append_nil, heq]

/-- A printed array is JSON text, if its elements are. -/
theorem print_array_json {depth : Nat} {vs : List Value}
    (h : ∀ v ∈ vs, Json .value (print_value S fmt (depth + 1) v)) :
    Json .value (lbracket :: (print_entries S fmt depth vs ++ [rbracket])) := by
  cases vs with
  | nil => exact .empty .array ws_nil
  | cons v vs =>
    have hrest := print_entries_json fun v' hv' => h v' (List.mem_cons_of_mem v hv')
    have hitem := Json.element (h v List.mem_cons_self) ws_nil
    have hjson := Json.container (k := .array) ws_nil hitem hrest
    simpa [print_entries, Kind.opening] using hjson

/-- A printed object is JSON text, if its members are and all have names. -/
theorem print_object_json {depth : Nat} {vs : List Value}
    (h : ∀ v ∈ vs, Json .value (print_value S fmt (depth + 1) v))
    (hnames : ∀ v ∈ vs, v.item.string.isSome) :
    Json .value (if vs.isEmpty then lbrace :: (newline fmt ++ tabs fmt (depth - 1) ++ [rbrace])
      else lbrace :: (newline fmt ++ (print_members S fmt depth vs ++ (tabs fmt depth ++ [rbrace])))) := by
  cases vs with
  | nil => exact .empty .object (ws_append (newline_ws fmt) (tabs_ws fmt (depth - 1)))
  | cons v vs =>
    obtain ⟨i, r, hi, hr, heq⟩ := print_members_json h hnames
    have hspace := ws_append (newline_ws fmt) (tabs_ws fmt (depth + 1))
    have hjson := Json.container hspace hi hr
    rw [List.isEmpty_cons, if_neg Bool.false_ne_true, heq, ← List.append_assoc]
    exact hjson

mutual

/-- **Printing.**  What is printed of a value is the text of a value. -/
theorem print_value_json : (v : Value) → Printable v → ∀ depth,
    Json .value (print_value S fmt depth v)
  | .mk _ i c, h, depth => by
    obtain ⟨hstring, hnames, hall⟩ := h
    have hc := print_all_json c hall (depth + 1)
    rw [print_value]
    cases ht : i.type with
    | NULL => exact .null
    | False => exact .false
    | True => exact .true
    | Number => exact .number (print_number_text S i)
    | String => exact .string (print_string_text (hstring ht))
    | Array => exact print_array_json hc
    | Object => exact print_object_json hc (hnames ht)

/-- The same for a list of values. -/
theorem print_all_json : (vs : List Value) → PrintableAll vs → ∀ depth,
    ∀ v ∈ vs, Json .value (print_value S fmt depth v)
  | [], _, _ => fun _ hv => nomatch hv
  | v :: vs, h, depth => by
    have hv := print_value_json v h.1 depth
    have hvs := print_all_json vs h.2 depth
    intro v' hv'
    rcases List.mem_cons.mp hv' with rfl | hv'
    · exact hv
    · exact hvs v' hv'

end

end Print

/-! ## What is parsed is printable -/

open Ensures

/-- What the parser of an item of a container returns. -/
def Items (Q : Value → Prop) (vs : List Value) : Prop := ∀ v ∈ vs, Q v

theorem items_nil {Q : Value → Prop} : Items Q [] := fun _ hv => absurd hv List.not_mem_nil

/-- The items of a list, one by one. -/
theorem items_cons {Q : Value → Prop} {v : Value} {vs : List Value} (hv : Q v) (hvs : Items Q vs) :
    Items Q (v :: vs) := by
  intro v' hv'
  rcases List.mem_cons.mp hv' with rfl | hv'
  · exact hv
  · exact hvs v' hv'

/-- The rest of the items has what every item has. -/
theorem parse_rest_ensures {close : UInt8} {item : Parser UInt8 (Option Value)} {Q : Value → Prop}
    (h : Ensures item (OfSome Q)) (fuel : Nat) :
    Ensures (parse_rest close item fuel) (OfSome (Items Q)) := by
  induction fuel with
  | zero => exact .nothing
  | succ fuel ih =>
    refine bind_any fun c => .ite ?_ (.ite ?_ (.pure ofSome_none))
    · refine bind_any fun _ => bind_any fun _ => h.andThen fun v hv => ih.andThen fun vs hvs => ?_
      exact .pure (ofSome_some (items_cons hv hvs))
    · exact bind_any fun _ => .pure (ofSome_some items_nil)

/-- The items have what every item has. -/
theorem parse_items_ensures {close : UInt8} {item : Parser UInt8 (Option Value)} {Q : Value → Prop}
    (h : Ensures item (OfSome Q)) (fuel : Nat) :
    Ensures (parse_items close item fuel) (OfSome (Items Q)) := by
  refine bind_any fun _ => bind_any fun _ => bind_any fun c => .ite ?_ ?_
  · exact bind_any fun _ => .pure (ofSome_some items_nil)
  · refine h.andThen fun v hv => (parse_rest_ensures h fuel).andThen fun vs hvs => ?_
    exact .pure (ofSome_some (items_cons hv hvs))

end Cjson

end Turnserver
