/-
  PARSING JSON (`new_elbs/cJSON.cc`, 96–116, 141–213, 261–300, 320–346, 406–440).

  The parser reads through a pointer and knows nothing of the end of its input but the NUL, so each of
  its functions is a program on the memory behind the pointer that fails where it would read on
  (`Lib.Cursor`).  A function that returns 0 gives `none`.  Allocation succeeds.

  * Loops and the nesting of values end within `fuel` rounds.
  * The arithmetic on doubles is a parameter: `double` makes a number of what `parse_number` scans.
  * `parse_array` and `parse_object` are `parse_items` with two kinds of items.
  * `cJSON_Parse_stable`: a longer memory changes nothing where a shorter one was enough.
-/
import Turnserver.Json.JsonValue
import Turnserver.Lib.Cursor

namespace Turnserver

namespace Cjson

open Parsing Cursor

/-! ## Characters -/

namespace Ascii

/-- The double quote. -/
abbrev quote : UInt8 := 34

/-- `+` -/
abbrev plus : UInt8 := 43

/-- `,` -/
abbrev comma : UInt8 := 44

/-- `-` -/
abbrev minus : UInt8 := 45

/-- `.` -/
abbrev dot : UInt8 := 46

/-- `0` -/
abbrev zero : UInt8 := 48

/-- `:` -/
abbrev colon : UInt8 := 58

/-- `E` -/
abbrev upperE : UInt8 := 69

/-- `[` -/
abbrev lbracket : UInt8 := 91

/-- The backslash. -/
abbrev backslash : UInt8 := 92

/-- `]` -/
abbrev rbracket : UInt8 := 93

/-- `e` -/
abbrev lowerE : UInt8 := 101

/-- `u` -/
abbrev lowerU : UInt8 := 117

/-- The opening brace. -/
abbrev lbrace : UInt8 := 123

/-- The closing brace. -/
abbrev rbrace : UInt8 := 125

end Ascii

open Ascii

/-- `*num>='0' && *num<='9'` -/
def isDigit (c : UInt8) : Bool := 48 ≤ c && c ≤ 57

/-- What `skip` jumps over. -/
def isBlank (c : UInt8) : Bool := c != 0 && c ≤ 32

/-- `skip(value)` -/
def skip : Parser UInt8 Unit := do
  let _ ← span isBlank

/-! ## Numbers -/

/-- What `parse_number` scans. -/
structure Numeral where
  minus : Bool
  int : CString
  frac : CString
  expMinus : Bool
  exp : CString

/-- The digits before the point; a leading zero is passed over. -/
def parse_int : Parser UInt8 CString := do
  let _ ← accept zero
  let c ← peekAt 0
  if 49 ≤ c ∧ c ≤ 57 then span isDigit else pure []

/-- `if (*num=='.' && num[1]>='0' && num[1]<='9')`: the digits behind the dot. -/
def parse_fraction : Parser UInt8 CString := do
  let c ← peekAt 0
  if c = dot then do
    let d ← peekAt 1
    if isDigit d then do
      forward 1
      span isDigit
    else pure []
  else pure []

/-- `if (*num=='+') num++; else if (*num=='-') signsubscale=-1, num++;` -/
def parse_sign : Parser UInt8 Bool := do
  let signed ← accept plus
  if signed then pure false else accept minus

/-- `if (*num=='e' || *num=='E')`: the sign and the digits of the exponent. -/
def parse_exponent : Parser UInt8 (Bool × CString) := do
  let c ← peekAt 0
  if c = lowerE ∨ c = upperE then do
    forward 1
    let expMinus ← parse_sign
    let exp ← span isDigit
    pure (expMinus, exp)
  else pure (false, [])

/-- `parse_number`, up to the computation of the value. -/
def parse_number : Parser UInt8 Numeral := do
  let negative ← accept minus
  let int ← parse_int
  let frac ← parse_fraction
  let exponent ← parse_exponent
  pure ⟨negative, int, frac, exponent.1, exponent.2⟩

/-! ## Strings -/

/-- The value of a hexadecimal digit. -/
def hexDigit (c : UInt8) : Option Nat :=
  if 48 ≤ c ∧ c ≤ 57 then some (c.toNat - 48)
  else if 65 ≤ c ∧ c ≤ 70 then some (10 + c.toNat - 65)
  else if 97 ≤ c ∧ c ≤ 102 then some (10 + c.toNat - 97)
  else none

/-- The `k` digits of a hexadecimal number that begin at `value + i`, after the digits of `h`; 0 at the
    first character that is not one. -/
def parse_hex : Nat → Nat → Nat → Parser UInt8 Nat
  | 0, _, h => pure h
  | k + 1, i, h => do
    let c ← peekAt i
    match hexDigit c with
    | none => pure 0
    | some d => parse_hex k (i + 1) (h * 16 + d)

/-- `parse_hex4(value + i)` -/
def parse_hex4 (i : Nat) : Parser UInt8 Nat := parse_hex 4 i 0

/-- The bytes of a code point. -/
def utf8 (uc : Nat) : CString :=
  if uc < 0x80 then [.ofNat uc]
  else if uc < 0x800 then
    [.ofNat (uc >>> 6 ||| 0xC0), .ofNat ((uc ||| 0x80) &&& 0xBF)]
  else if uc < 0x10000 then
    [.ofNat (uc >>> 12 ||| 0xE0), .ofNat ((uc >>> 6 ||| 0x80) &&& 0xBF),
      .ofNat ((uc ||| 0x80) &&& 0xBF)]
  else
    [.ofNat (uc >>> 18 ||| 0xF0), .ofNat ((uc >>> 12 ||| 0x80) &&& 0xBF),
      .ofNat ((uc >>> 6 ||| 0x80) &&& 0xBF), .ofNat ((uc ||| 0x80) &&& 0xBF)]

/-- What a backslash before `c` stands for. -/
def unescape (c : UInt8) : UInt8 :=
  if c = 98 then 8
  else if c = 102 then 12
  else if c = 110 then 10
  else if c = 114 then 13
  else if c = 116 then 9
  else c

/-- The code point of two surrogates. -/
def surrogates (uc uc2 : Nat) : Nat := 0x10000 + ((uc &&& 0x3FF) <<< 10 ||| uc2 &&& 0x3FF)

/-- The pointer is at the backslash of a first surrogate `uc`. -/
def parse_surrogate (uc : Nat) : Parser UInt8 CString := do
  let c ← peekAt 6
  if c ≠ backslash then do
    forward 6
    pure []
  else do
    let d ← peekAt 7
    if d ≠ lowerU then do
      forward 6
      pure []
    else do
      let uc2 ← parse_hex4 8
      forward 12
      -- an invalid second half
      if uc2 < 0xDC00 ∨ 0xDFFF < uc2 then pure [] else pure (utf8 (surrogates uc uc2))

/-- The pointer is at the backslash of a `\u`. -/
def parse_unicode : Parser UInt8 CString := do
  let uc ← parse_hex4 2
  if (0xDC00 ≤ uc ∧ uc ≤ 0xDFFF) ∨ uc = 0 then do
    forward 6
    pure []
  else if 0xD800 ≤ uc ∧ uc ≤ 0xDBFF then parse_surrogate uc
  else do
    forward 6
    pure (utf8 uc)

/-- One round of the loop that copies: what is written. -/
def copyChar : Parser UInt8 CString := do
  let c ← peekAt 0
  if c ≠ backslash then do
    forward 1
    pure [c]
  else do
    let d ← peekAt 1
    if d = lowerU then parse_unicode
    else do
      forward 2
      pure [unescape d]

/-- `while (*ptr!='\"' && *ptr)` -/
def copyString : Nat → Parser UInt8 CString
  | 0 => nothing
  | fuel + 1 => do
    let c ← peekAt 0
    if c = quote ∨ c = 0 then pure []
    else do
      let out ← copyChar
      let more ← copyString fuel
      pure (out ++ more)

/-- The loop that counts how much room is needed. -/
def stringLength : Nat → Parser UInt8 Nat
  | 0 => nothing
  | fuel + 1 => do
    let c ← peekAt 0
    if c = quote ∨ c = 0 then pure 0
    else do
      forward (if c = backslash then 2 else 1)
      let len ← stringLength fuel
      pure (len + 1)

/-- `parse_string`: the length is counted first, for the buffer, and then the text is copied. -/
def parse_string (fuel : Nat) : Parser UInt8 (Option CString) := do
  let c ← peekAt 0
  if c ≠ quote then pure none
  else do
    forward 1
    let len ← lookahead (stringLength fuel)
    let out ← copyString fuel
    -- more is written than there is room for
    if len < out.length then nothing
    else do
      let _ ← accept quote
      pure (some (out.takeWhile (· ≠ 0)))

/-! ## Values -/

/-- The rest of the items and the closing character. -/
def parse_rest (close : UInt8) (item : Parser UInt8 (Option Value)) :
    Nat → Parser UInt8 (Option (List Value))
  | 0 => nothing
  | fuel + 1 => do
    let c ← peekAt 0
    if c = comma then do
      forward 1
      skip
      andThen item fun v => andThen (parse_rest close item fuel) fun vs => pure (some (v :: vs))
    else if c = close then do
      forward 1
      pure (some [])
    else pure none

/-- From the opening character on. -/
def parse_items (close : UInt8) (item : Parser UInt8 (Option Value)) (fuel : Nat) :
    Parser UInt8 (Option (List Value)) := do
  forward 1
  skip
  let c ← peekAt 0
  if c = close then do
    forward 1
    pure (some [])
  else
    andThen item fun v => andThen (parse_rest close item fuel) fun vs => pure (some (v :: vs))

/-- `value=skip(parse_value(child, value))` -/
def parse_element (value : Parser UInt8 (Option Value)) : Parser UInt8 (Option Value) :=
  andThen value fun v => do
    skip
    pure (some v)

/-- A name, a colon and a value. -/
def parse_member (fuel : Nat) (value : Parser UInt8 (Option Value)) : Parser UInt8 (Option Value) :=
  andThen (parse_string fuel) fun name => do
    skip
    let c ← peekAt 0
    if c ≠ colon then pure none
    else do
      forward 1
      skip
      andThen value fun v => do
        skip
        pure (some (named name v))

/-- A node without children. -/
def leaf (item : Item) : Value := .mk () item []

/-- `parse_array` -/
def parse_array (fuel : Nat) (value : Parser UInt8 (Option Value)) : Parser UInt8 (Option Value) :=
  andThen (parse_items rbracket (parse_element value) fuel) fun vs =>
    pure (some (.mk () { newItem with type := .Array } vs))

/-- `parse_object` -/
def parse_object (fuel : Nat) (value : Parser UInt8 (Option Value)) : Parser UInt8 (Option Value) :=
  andThen (parse_items rbrace (parse_member fuel value) fuel) fun vs =>
    pure (some (.mk () { newItem with type := .Object } vs))

/-- `if (!strncmp(value, lit, strlen(lit)))` -/
def literal (lit : CString) (item : Item) (otherwise : Parser UInt8 (Option Value)) :
    Parser UInt8 (Option Value) := do
  let found ← startsWith lit
  if found then do
    forward lit.length
    pure (some (leaf item))
  else otherwise

section Double

variable (double : Numeral → Rat)

/-- The node of a number. -/
def numberItem (n : Numeral) : Item :=
  { newItem with type := .Number, valuedouble := double n, valueint := toInt (double n) }

/-- The cases that are told apart by one character. -/
def parse_other (fuel : Nat) (value : Parser UInt8 (Option Value)) : Parser UInt8 (Option Value) := do
  let c ← peekAt 0
  if c = quote then
    andThen (parse_string fuel) fun s =>
      pure (some (leaf { newItem with type := .String, valuestring := some s }))
  else if c = minus ∨ isDigit c then do
    let n ← parse_number
    pure (some (leaf (numberItem double n)))
  else if c = lbracket then parse_array fuel value
  else if c = lbrace then parse_object fuel value
  else pure none

/-- `parse_value`: the literals in the order of the source, then by the first character. -/
def parse_value : Nat → Parser UInt8 (Option Value)
  | 0 => nothing
  | fuel + 1 =>
    literal (ascii "null") { newItem with type := .NULL }
      (literal (ascii "false") newItem
        (literal (ascii "true") { newItem with type := .True, valueint := 1 }
          (parse_other double fuel (parse_value fuel))))

/-- `cJSON_Parse(value)`; where the value ends does not matter. -/
def cJSON_Parse (fuel : Nat) (mem : List UInt8) : Option (Option Value) :=
  ((do
    skip
    parse_value double fuel).run mem).map Prod.fst

end Double

/-! ## Stability -/

theorem skip_stable : Stable skip := (Stable.span isBlank).bind fun _ => .pure ()

theorem parse_int_stable : Stable parse_int :=
  (Stable.accept zero).bind fun _ => (Stable.peekAt 0).bind fun _ =>
    .ite (.span isDigit) (.pure [])

theorem parse_fraction_stable : Stable parse_fraction :=
  (Stable.peekAt 0).bind fun _ => .ite
    ((Stable.peekAt 1).bind fun _ => .ite
      ((Stable.forward 1).bind fun _ => .span isDigit) (.pure []))
    (.pure [])

theorem parse_exponent_stable : Stable parse_exponent :=
  (Stable.peekAt 0).bind fun _ => .ite
    ((Stable.forward 1).bind fun _ =>
      Stable.bind ((Stable.accept plus).bind fun _ => .ite (.pure false) (.accept minus))
        fun _ => (Stable.span isDigit).bind fun _ => .pure _)
    (.pure _)

theorem parse_number_stable : Stable parse_number :=
  (Stable.accept minus).bind fun _ => parse_int_stable.bind fun _ =>
    parse_fraction_stable.bind fun _ => parse_exponent_stable.bind fun _ => .pure _

theorem parse_hex_stable (k i h : Nat) : Stable (parse_hex k i h) := by
  induction k generalizing i h with
  | zero => exact .pure h
  | succ k ih =>
    refine (Stable.peekAt i).bind fun c => ?_
    cases hexDigit c with
    | none => exact .pure 0
    | some d => exact ih (i + 1) (h * 16 + d)

theorem forward_stable (n : Nat) (out : CString) :
    Stable (do forward n; pure out : Parser UInt8 CString) :=
  (Stable.forward n).bind fun _ => .pure out

theorem parse_surrogate_stable (uc : Nat) : Stable (parse_surrogate uc) :=
  (Stable.peekAt 6).bind fun _ => .ite (forward_stable 6 [])
    ((Stable.peekAt 7).bind fun _ => .ite (forward_stable 6 [])
      ((parse_hex_stable 4 8 0).bind fun _ => (Stable.forward 12).bind fun _ =>
        .ite (.pure _) (.pure _)))

theorem copyChar_stable : Stable copyChar :=
  (Stable.peekAt 0).bind fun _ => .ite (forward_stable 1 _)
    ((Stable.peekAt 1).bind fun _ => .ite
      ((parse_hex_stable 4 2 0).bind fun uc => .ite (forward_stable 6 _)
        (.ite (parse_surrogate_stable uc) (forward_stable 6 _)))
      (forward_stable 2 _))

theorem copyString_stable (fuel : Nat) : Stable (copyString fuel) := by
  induction fuel with
  | zero => exact .nothing
  | succ fuel ih =>
    exact (Stable.peekAt 0).bind fun _ => .ite (.pure _)
      (copyChar_stable.bind fun _ => ih.bind fun _ => .pure _)

theorem stringLength_stable (fuel : Nat) : Stable (stringLength fuel) := by
  induction fuel with
  | zero => exact .nothing
  | succ fuel ih =>
    exact (Stable.peekAt 0).bind fun _ => .ite (.pure _)
      ((Stable.forward _).bind fun _ => ih.bind fun _ => .pure _)

theorem parse_string_stable (fuel : Nat) : Stable (parse_string fuel) :=
  (Stable.peekAt 0).bind fun _ => .ite (.pure none)
    ((Stable.forward 1).bind fun _ => (stringLength_stable fuel).lookahead.bind fun _ =>
      (copyString_stable fuel).bind fun _ => .ite .nothing
        ((Stable.accept quote).bind fun _ => .pure _))

section Items

variable {close : UInt8} {item value : Parser UInt8 (Option Value)}

theorem parse_rest_stable (h : Stable item) (fuel : Nat) : Stable (parse_rest close item fuel) := by
  induction fuel with
  | zero => exact .nothing
  | succ fuel ih =>
    exact (Stable.peekAt 0).bind fun _ => .ite
      ((Stable.forward 1).bind fun _ => skip_stable.bind fun _ =>
        h.andThen fun _ => ih.andThen fun _ => .pure _)
      (.ite ((Stable.forward 1).bind fun _ => .pure _) (.pure none))

theorem parse_items_stable (h : Stable item) (fuel : Nat) : Stable (parse_items close item fuel) :=
  (Stable.forward 1).bind fun _ => skip_stable.bind fun _ => (Stable.peekAt 0).bind fun _ =>
    .ite ((Stable.forward 1).bind fun _ => .pure _)
      (h.andThen fun _ => (parse_rest_stable h fuel).andThen fun _ => .pure _)

theorem parse_element_stable (h : Stable value) : Stable (parse_element value) :=
  h.andThen fun _ => skip_stable.bind fun _ => .pure _

theorem parse_member_stable (fuel : Nat) (h : Stable value) : Stable (parse_member fuel value) :=
  (parse_string_stable fuel).andThen fun _ => skip_stable.bind fun _ =>
    (Stable.peekAt 0).bind fun _ => .ite (.pure none)
      ((Stable.forward 1).bind fun _ => skip_stable.bind fun _ =>
        h.andThen fun _ => skip_stable.bind fun _ => .pure _)

theorem literal_stable (lit : CString) (i : Item) (h : Stable value) :
    Stable (literal lit i value) :=
  (Stable.startsWith lit).bind fun _ => .ite ((Stable.forward _).bind fun _ => .pure _) h

theorem parse_other_stable (double : Numeral → Rat) (fuel : Nat) (h : Stable value) :
    Stable (parse_other double fuel value) :=
  (Stable.peekAt 0).bind fun _ => .ite
    ((parse_string_stable fuel).andThen fun _ => .pure _)
    (.ite (parse_number_stable.bind fun _ => .pure _)
      (.ite
        ((parse_items_stable (parse_element_stable h) fuel).andThen fun _ => .pure _)
        (.ite
          ((parse_items_stable (parse_member_stable fuel h) fuel).andThen fun _ => .pure _)
          (.pure none))))

end Items

theorem parse_value_stable (double : Numeral → Rat) (fuel : Nat) :
    Stable (parse_value double fuel) := by
  induction fuel with
  | zero => exact .nothing
  | succ fuel ih =>
    exact literal_stable _ _ (literal_stable _ _ (literal_stable _ _
      (parse_other_stable double fuel ih)))

end Cjson

end Turnserver
