/-
  WHAT A TEXT SAYS (`new_elbs/cJSON.cc`, 96–116, 141–213, 261–346, 406–440).

  `Says` is the grammar of `Json.Grammar` once more, with what each text stands for.  Between the tokens
  stands what `G` allows: nothing, white space, or comments for those who remove them.

  * `says_read`: where it is white space the parser builds exactly what the text says.
-/
import Turnserver.Json.Grammar

namespace Turnserver

namespace Cjson

open Parsing Cursor Ascii

variable {double : Numeral → Rat} {G : CString → Prop}

/-! ## Tokens -/

/-- The number `n` is scanned. -/
def Scans (s : CString) (n : Numeral) : Prop :=
  ∀ rest, Delimits rest → parse_number.run (s ++ rest) = some (n, rest)

/-- The string `str` is read. -/
def Spells (s str : CString) : Prop :=
  ∀ fuel rest, s.length ≤ fuel → (parse_string fuel).run (s ++ rest) = some (some str, rest)

/-- Nothing at all. -/
def Tight (w : CString) : Prop := w = []

/-- What stands without blanks stands with any. -/
theorem Tight.ws {w : CString} (h : Tight w) : Ws w := by
  rw [show w = [] from h]
  exact ws_nil

/-! ## Texts and values -/

/-- A value or an item says one value, the rest of a container the values of its items. -/
inductive Says (double : Numeral → Rat) (G : CString → Prop) : Part → CString → List Value → Prop
  | null : Says double G .value (ascii "null") [leaf { newItem with type := .NULL }]
  | false : Says double G .value (ascii "false") [leaf newItem]
  | true : Says double G .value (ascii "true") [leaf { newItem with type := .True, valueint := 1 }]
  | number {s : CString} {n : Numeral} (hs : NumberText s) (hn : Scans s n) :
      Says double G .value s [leaf (numberItem double n)]
  | string {s str : CString} (hs : StringText s) (hstr : Spells s str) :
      Says double G .value s [leaf { newItem with type := .String, valuestring := some str }]
  | empty {w : CString} (k : Kind) (hw : G w) :
      Says double G .value (k.opening :: (w ++ [k.close])) [k.node []]
  | container {w i r : CString} {k : Kind} {v : Value} {vs : List Value} (hw : G w)
      (hi : Says double G (.item k) i [v]) (hr : Says double G (.rest k) r vs) :
      Says double G .value (k.opening :: (w ++ (i ++ r))) [k.node (v :: vs)]
  | element {s w : CString} {v : Value} (hs : Says double G .value s [v]) (hw : G w) :
      Says double G (.item .array) (s ++ w) [v]
  | member {s w₁ w₂ t w₃ name : CString} {v : Value} (hs : StringText s) (hname : Spells s name)
      (h₁ : G w₁) (h₂ : G w₂) (ht : Says double G .value t [v]) (h₃ : G w₃) :
      Says double G (.item .object) (s ++ (w₁ ++ colon :: (w₂ ++ (t ++ w₃)))) [named name v]
  | close (k : Kind) : Says double G (.rest k) [k.close] []
  | next {w i r : CString} {k : Kind} {v : Value} {vs : List Value} (hw : G w)
      (hi : Says double G (.item k) i [v]) (hr : Says double G (.rest k) r vs) :
      Says double G (.rest k) (comma :: (w ++ (i ++ r))) (v :: vs)

/-- More may stand between the tokens. -/
theorem Says.mono {G' : CString → Prop} (hG : ∀ w, G w → G' w) {p : Part} {s : CString}
    {vs : List Value} (h : Says double G p s vs) : Says double G' p s vs := by
  induction h with
  | null => exact .null
  | false => exact .false
  | true => exact .true
  | number hs hn => exact .number hs hn
  | string hs hstr => exact .string hs hstr
  | empty k hw => exact .empty k (hG _ hw)
  | container hw _ _ ihi ihr => exact .container (hG _ hw) ihi ihr
  | element _ hw ih => exact .element ih (hG _ hw)
  | member hs hname h₁ h₂ _ h₃ ih => exact .member hs hname (hG _ h₁) (hG _ h₂) ih (hG _ h₃)
  | close k => exact .close k
  | next hw _ _ ihi ihr => exact .next (hG _ hw) ihi ihr

/-- What says something is JSON text. -/
theorem Says.json {p : Part} {s : CString} {vs : List Value} (h : Says double Ws p s vs) : Json p s := by
  induction h with
  | null => exact .null
  | false => exact .false
  | true => exact .true
  | number hs _ => exact .number hs
  | string hs _ => exact .string hs
  | empty k hw => exact .empty k hw
  | container hw _ _ ihi ihr => exact .container hw ihi ihr
  | element _ hw ih => exact .element ih hw
  | member hs _ h₁ h₂ _ h₃ ih => exact .member hs h₁ h₂ ih h₃
  | close k => exact .close k
  | next hw _ _ ihi ihr => exact .next hw ihi ihr

/-- A value is one value, and so is an item. -/
def Part.Fits : Part → List Value → Prop
  | rest _, _ => True
  | _, vs => ∃ v, vs = [v]

/-! ## The parser builds what is said -/

/-- The parser makes `vs` of the part, and stops behind it. -/
def Builds (double : Numeral → Rat) : Part → CString → List Value → Prop
  | .value, s, vs => ∀ v, vs = [v] → ∀ fuel rest, s.length < fuel → (NumberText s → Delimits rest) →
      (parse_value double fuel).run (s ++ rest) = some (some v, rest)
  | .item k, s, vs => ∀ v, vs = [v] → ∀ fuel rest, s.length < fuel → k.Ends rest →
      (k.parser fuel (parse_value double fuel)).run (s ++ rest) = some (some v, rest)
  | .rest k, s, vs => ∀ fuel rounds rest, s.length < fuel → s.length ≤ rounds →
      (parse_rest k.close (k.parser fuel (parse_value double fuel)) rounds).run (s ++ rest) =
        some (some vs, rest)

/-- The words are told by their letters. -/
theorem builds_word {s : CString} {v : Value}
    (h : ∀ fuel rest, (parse_value double (fuel + 1)).run (s ++ rest) = some (some v, rest)) :
    Builds double .value s [v] := by
  rintro _ ⟨rfl⟩ fuel rest hfuel -
  cases fuel with
  | zero => cases hfuel
  | succ fuel => exact h fuel rest

/-- A numeral builds the number that the parser scans. -/
theorem builds_number {s : CString} {n : Numeral} (hs : NumberText s) (hn : Scans s n) :
    Builds double .value s [leaf (numberItem double n)] := by
  rintro _ ⟨rfl⟩ fuel rest hfuel hrest
  have hrun := hn rest (hrest hs)
  rcases number_starts hs with ⟨c, s', rfl, hc, -⟩
  have hletters : c ≠ 110 ∧ c ≠ 102 ∧ c ≠ 116 := by
    refine ⟨?_, ?_, ?_⟩ <;> rintro rfl <;> exact absurd hc (by decide)
  have hquote : c ≠ quote := by
    rintro rfl
    exact absurd hc (by decide)
  cases fuel with
  | zero => cases hfuel
  | succ fuel =>
    rw [List.cons_append] at hrun ⊢
    rw [parse_value_other hletters, parse_other, run_bind (peekAt_zero _), if_neg hquote, if_pos hc,
      run_bind hrun]
    rfl

/-- A quoted text builds the text that it spells. -/
theorem builds_string {s str : CString} (hs : StringText s) (hstr : Spells s str) :
    Builds double .value s [leaf { newItem with type := .String, valuestring := some str }] := by
  rintro _ ⟨rfl⟩ fuel rest hfuel -
  cases fuel with
  | zero => cases hfuel
  | succ fuel =>
    have hrun := hstr fuel rest (Nat.le_of_lt_succ hfuel)
    cases hs with
    | quoted h =>
      rw [List.cons_append] at hrun ⊢
      rw [parse_value_other (by decide), parse_other, run_bind (peekAt_zero _), if_pos rfl,
        andThen_some hrun]
      rfl

/-- Brackets with only blanks between them build an empty array or object. -/
theorem builds_empty {w : CString} (k : Kind) (hw : Ws w) :
    Builds double .value (k.opening :: (w ++ [k.close])) [k.node []] := by
  rintro _ ⟨rfl⟩ fuel rest hfuel -
  cases fuel with
  | zero => cases hfuel
  | succ fuel =>
    rw [show k.opening :: (w ++ [k.close]) ++ rest = k.opening :: (w ++ k.close :: rest) by simp]
    refine parse_container k ?_
    rw [parse_items, run_bind (forward_one _), run_bind (skip_run hw (close_solid k rest)),
      run_bind (peekAt_zero _), if_pos rfl, run_bind (forward_one _)]
    rfl

/-- An opening bracket, a first item and the rest build the array or object of the items. -/
theorem builds_container {w i r : CString} {k : Kind} {v : Value} {vs : List Value} (hw : Ws w)
    (hi : Json (.item k) i) (hr : Json (.rest k) r) (hv : Builds double (.item k) i [v])
    (hvs : Builds double (.rest k) r vs) :
    Builds double .value (k.opening :: (w ++ (i ++ r))) [k.node (v :: vs)] := by
  rintro _ ⟨rfl⟩ fuel rest hfuel -
  cases fuel with
  | zero => cases hfuel
  -- one unit of the bound for each level
  | succ fuel =>
    have hipos := length_pos_of_json hi
    have hrpos := length_pos_of_json hr
    rw [List.length_cons, List.length_append, List.length_append] at hfuel
    have hitem := hv v rfl fuel (r ++ rest) (by omega) (rest_ends hr rest)
    have hrest := hvs fuel fuel rest (by omega) (by omega)
    rcases item_ne_close hi with ⟨c, s', rfl, hc⟩
    rw [List.cons_append, List.append_assoc, List.append_assoc]
    refine parse_container k ?_
    rw [parse_items, run_bind (forward_one _), run_bind (skip_run hw (solid_of_json hi)), bind_run]
    rw [List.cons_append] at hitem ⊢
    rw [peekAt_zero, Option.bind_some, if_neg hc, andThen_some hitem, andThen_some hrest]
    rfl

/-- A value with blanks behind it builds an element. -/
theorem builds_element {s w : CString} {v : Value} (hw : Ws w) (hv : Builds double .value s [v]) :
    Builds double (.item .array) (s ++ w) [v] := by
  rintro _ ⟨rfl⟩ fuel rest hfuel hends
  rw [List.length_append] at hfuel
  have hrun := hv v rfl fuel (w ++ rest) (by omega) fun _ => ws_delimits hw (ends_delimits hends)
  rw [List.append_assoc]
  show (parse_element (parse_value double fuel)).run _ = _
  rw [parse_element, andThen_some hrun, run_bind (skip_run hw (ends_solid hends))]
  rfl

/-- A name, a colon and a value build a member. -/
theorem builds_member {s w₁ w₂ t w₃ name : CString} {v : Value} (hname : Spells s name) (h₁ : Ws w₁)
    (h₂ : Ws w₂) (ht : Json .value t) (h₃ : Ws w₃) (hv : Builds double .value t [v]) :
    Builds double (.item .object) (s ++ (w₁ ++ colon :: (w₂ ++ (t ++ w₃)))) [named name v] := by
  rintro _ ⟨rfl⟩ fuel rest hfuel hends
  simp only [List.length_append, List.length_cons] at hfuel
  have hrun := hv v rfl fuel (w₃ ++ rest) (by omega) fun _ => ws_delimits h₃ (ends_delimits hends)
  have hstring := hname fuel (w₁ ++ colon :: (w₂ ++ (t ++ (w₃ ++ rest)))) (by omega)
  have hcolon : Solid (colon :: (w₂ ++ (t ++ (w₃ ++ rest)))) := ⟨colon, _, rfl, rfl⟩
  rw [show s ++ (w₁ ++ colon :: (w₂ ++ (t ++ w₃))) ++ rest =
    s ++ (w₁ ++ colon :: (w₂ ++ (t ++ (w₃ ++ rest)))) by simp]
  show (parse_member fuel (parse_value double fuel)).run _ = _
  rw [parse_member, andThen_some hstring, run_bind (skip_run h₁ hcolon), run_bind (peekAt_zero _),
    if_neg (by simp), run_bind (forward_one _), run_bind (skip_run h₂ (solid_of_json ht)),
    andThen_some hrun, run_bind (skip_run h₃ (ends_solid hends))]
  rfl

/-- A closing bracket ends the items. -/
theorem builds_close (k : Kind) : Builds double (.rest k) [k.close] [] := by
  have hne : k.close ≠ comma := by cases k <;> decide
  intro fuel rounds rest _ hrounds
  cases rounds with
  | zero => cases hrounds
  | succ rounds =>
    rw [parse_rest, List.cons_append, run_bind (peekAt_zero _), if_neg hne, if_pos rfl,
      run_bind (forward_one _)]
    rfl

/-- A comma, an item and the rest build the items from that one on. -/
theorem builds_next {w i r : CString} {k : Kind} {v : Value} {vs : List Value} (hw : Ws w)
    (hi : Json (.item k) i) (hr : Json (.rest k) r) (hv : Builds double (.item k) i [v])
    (hvs : Builds double (.rest k) r vs) :
    Builds double (.rest k) (comma :: (w ++ (i ++ r))) (v :: vs) := by
  intro fuel rounds rest hfuel hrounds
  rw [List.length_cons, List.length_append, List.length_append] at hfuel hrounds
  cases rounds with
  | zero => cases hrounds
  | succ rounds =>
    have hitem := hv v rfl fuel (r ++ rest) (by omega) (rest_ends hr rest)
    have hrest := hvs fuel rounds rest (by omega) (by omega)
    rw [List.cons_append, List.append_assoc, List.append_assoc, parse_rest,
      run_bind (peekAt_zero _), if_pos rfl, run_bind (forward_one _),
      run_bind (skip_run hw (solid_of_json hi)), andThen_some hitem, andThen_some hrest]
    rfl

/-- **Reading what is said.** -/
theorem says_read {p : Part} {s : CString} {vs : List Value} (h : Says double Ws p s vs) :
    Builds double p s vs := by
  -- induction on what the text says, one case for each rule of the grammar
  induction h with
  | null => exact builds_word fun fuel rest => literal_self _ _ _ rest
  -- the literals are tried in the order `null`, `false`, `true`
  | false =>
    refine builds_word fun fuel rest => ?_
    rw [parse_value, ascii_null, ascii_false, List.cons_append, literal_ne (by decide)]
    exact literal_self _ _ _ rest
  | true =>
    refine builds_word fun fuel rest => ?_
    rw [parse_value, ascii_null, ascii_false, ascii_true, List.cons_append, literal_ne (by decide),
      literal_ne (by decide)]
    exact literal_self _ _ _ rest
  | number hs hn => exact builds_number hs hn
  | string hs hstr => exact builds_string hs hstr
  | empty k hw => exact builds_empty k hw
  | container hw hi hr ihi ihr => exact builds_container hw hi.json hr.json ihi ihr
  | element _ hw ih => exact builds_element hw ih
  | member _ hname h₁ h₂ ht h₃ ih => exact builds_member hname h₁ h₂ ht.json h₃ ih
  | close k => exact builds_close k
  | next hw hi hr ihi ihr => exact builds_next hw hi.json hr.json ihi ihr

/-- A text with white space around it, and the NUL behind it. -/
theorem says_parse {before s after : CString} {v : Value} (hbefore : Ws before)
    (h : Says double Ws .value s [v]) (hafter : Ws after) (behind : List UInt8) {fuel : Nat}
    (hfuel : s.length < fuel) :
    cJSON_Parse double fuel (before ++ (s ++ (after ++ 0 :: behind))) = some (some v) := by
  have hvalue := says_read h v rfl fuel (after ++ 0 :: behind) hfuel fun _ =>
    ws_delimits hafter ⟨0, behind, rfl, by decide⟩
  rw [cJSON_Parse, run_bind (skip_run hbefore (solid_of_json h.json)), hvalue]
  rfl

end Cjson

end Turnserver
