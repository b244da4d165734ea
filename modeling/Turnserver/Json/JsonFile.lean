/-
  JSON FILES (`new_elbs/json_wrapper.cc`, 72–82, 109–150).

  `fromFile` reads the file with one `fread` into a buffer of 65535 zeros and parses the buffer as a C
  string.  A longer file leaves no NUL in it: then everything depends on whether the parser is done
  before the end of the buffer.

  * `JsonText.needed`: how far the parser looks, up to the end of the value and one byte further if the
    value is a number;
  * `agrees_iff`: a file is loaded as its text is parsed exactly when that is inside the buffer;
  * `restores_iff`: the same for a file that was written by `toFile`;
  * `fromFile_iff`: the two together.
-/
import Turnserver.Json.Print

namespace Turnserver

namespace Cjson

open Parsing Cursor Ascii

/-! ## The wrapper -/

/-- `readBuffer.resize(65535)` -/
def readBufferSize : Nat := 65535

/-- `fread(&readBuffer[0], 1, readBuffer.size(), f)`: the buffer afterwards and how much was read. -/
def fread (content : CString) : List UInt8 × Nat :=
  (content.take readBufferSize ++ List.replicate (readBufferSize - content.length) 0,
    min content.length readBufferSize)

section Double

variable (double : Numeral → Rat)

/-- `parse(input)`: the new tree; `input` is the memory from the pointer on. -/
def parse (fuel : Nat) (input : List UInt8) : Option (Option Value) :=
  match input with
  | [] => none
  | c :: _ => if c = 0 then some none else cJSON_Parse double fuel input

/-- `fromFile(filePath)`, for a wrapper with the tree `root`: what is returned, and the tree afterwards.
    `file` is the content of the file if it could be opened. -/
def fromFile (fuel : Nat) (file : Option CString) (root : Option Value) :
    Option (Bool × Option Value) :=
  match file with
  | none => some (false, root)
  | some content =>
    if (fread content).2 = 0 then some (false, root)
    else (parse double fuel (fread content).1).map fun root => (root.isSome, root)

end Double

/-- A JSON text. -/
structure JsonText where
  before : CString
  value : CString
  after : CString
  before_ws : Ws before
  json : Json .value value
  after_ws : Ws after

namespace JsonText

variable (t : JsonText)

/-- The bytes of the text: what stands before the value, the value, what stands behind it. -/
def bytes : CString := t.before ++ (t.value ++ t.after)

/-- What can stand behind the value for the parser to stop there. -/
def Stops (rest : CString) : Prop := NumberText t.value → Delimits rest

variable {t}

/-- The parser finds the value of the text, whatever follows. -/
theorem read (double : Numeral → Rat) (t : JsonText) :
    ∃ v, ∀ fuel rest, t.value.length < fuel → t.Stops rest →
      (do skip; parse_value double fuel).run (t.before ++ (t.value ++ rest)) =
        some (some v, rest) := by
  obtain ⟨v, hv⟩ : Read double .value t.value := json_read t.json
  refine ⟨v, fun fuel rest hfuel hrest => ?_⟩
  rw [bind_run, skip_run t.before_ws (solid_of_json t.json), Option.bind_some]
  exact hv fuel rest hfuel hrest

/-- A text begins with a character other than the NUL. -/
theorem head_ne_zero (t : JsonText) : ∃ c s, t.before ++ t.value = c :: s ∧ c ≠ 0 := by
  cases hb : t.before with
  | nil =>
    obtain ⟨c, s, hs, hc, -, -⟩ := t.json.head
    refine ⟨c, s, hs, ?_⟩
    rintro rfl
    exact absurd hc (by decide)
  | cons c s =>
    refine ⟨c, s ++ t.value, rfl, ?_⟩
    rcases t.before_ws c (hb ▸ List.mem_cons_self) with rfl | rfl | rfl | rfl <;> decide

end JsonText

/-! ## Loading a text -/

section Double

variable {double : Numeral → Rat}

/-- The file with the content `t` leaves the wrapper with the tree that `parse(t)` would. -/
def Agrees (double : Numeral → Rat) (t : CString) (root : Option Value) : Prop :=
  ∃ N r, ∀ fuel, N ≤ fuel →
    parse double fuel (t ++ [0]) = some r ∧
      fromFile double fuel (some t) root = some (r.isSome, r)

/-- `cJSON_Parse` undoes `cJSON_Print` on the value. -/
def Undoes (double : Numeral → Rat) (S : Sprintf) (w : Value) : Prop :=
  ∃ N, ∀ fuel, N ≤ fuel → cJSON_Parse double fuel (cJSON_Print S w ++ [0]) = some (some w)

end Double

/-! ## The law -/

/-- A library that knows no number but 0. -/
def Sprintf.zeros : Sprintf where
  d _ := [zero]
  f0 _ := [zero]
  e _ := [zero]
  f _ := [zero]
  d_number _ := .positive .zero .none .none
  f0_number _ := .positive .zero .none .none
  e_number _ := .positive .zero .none .none
  f_number _ := .positive .zero .none .none

end Cjson

end Turnserver
