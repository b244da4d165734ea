/-
  JSON TEXTS — the grammar, and that the parser reads every one of them.

  The grammar is on bytes, whether or not they are UTF-8.  An array or an object is an opening character,
  items, and what follows an item: a comma and more, or the closing character.

  * `json_read`: on the text of a value the parser gives some value and stops behind the text, with
    more rounds than the text has bytes.  Behind a number must come something that ends it;
  * `chars_read`: a string is copied into no more room than was counted for it, surrogates included;
  * `NumberText.extend`: a number can always be longer, so the parser has to look behind it.
-/
import Turnserver.Json.Parse

namespace Turnserver

namespace Cjson

open Parsing Cursor Ascii

/-! ## The grammar -/

/-- Spaces, tabs and ends of lines. -/
def Ws (w : CString) : Prop := ∀ c ∈ w, c = 32 ∨ c = 9 ∨ c = 10 ∨ c = 13

/-- Only decimal digits. -/
def AllDigits (ds : CString) : Prop := ∀ d ∈ ds, isDigit d = true

/-- The integer part of a number: a zero, or digits that do not begin with one. -/
inductive IntText : CString → Prop
  | zero : IntText [zero]
  | digits {d : UInt8} {ds : CString} (h : 49 ≤ d ∧ d ≤ 57) (hds : AllDigits ds) : IntText (d :: ds)

/-- The fraction: nothing, or a dot and digits. -/
inductive FractionText : CString → Prop
  | none : FractionText []
  | digits {d : UInt8} {ds : CString} (hds : AllDigits (d :: ds)) : FractionText (dot :: d :: ds)

/-- The sign of an exponent. -/
inductive SignText : CString → Prop
  | none : SignText []
  | plus : SignText [plus]
  | minus : SignText [minus]

/-- The exponent: nothing, or an `e` with a sign and digits. -/
inductive ExponentText : CString → Prop
  | none : ExponentText []
  | digits {e d : UInt8} {s ds : CString} (he : e = lowerE ∨ e = upperE) (hs : SignText s)
      (hds : AllDigits (d :: ds)) : ExponentText (e :: (s ++ d :: ds))

/-- A number. -/
inductive NumberText : CString → Prop
  | positive {i f e : CString} (hi : IntText i) (hf : FractionText f) (he : ExponentText e) :
      NumberText (i ++ (f ++ e))
  | negative {i f e : CString} (hi : IntText i) (hf : FractionText f) (he : ExponentText e) :
      NumberText (minus :: (i ++ (f ++ e)))

/-- A hexadecimal digit. -/
def IsHex (c : UInt8) : Prop := (hexDigit c).isSome

instance : DecidablePred IsHex := fun c => inferInstanceAs (Decidable ((hexDigit c).isSome = true))

/-- One character of a string. -/
inductive CharText : CString → Prop
  | plain {c : UInt8} (h : 32 ≤ c ∧ c ≠ quote ∧ c ≠ backslash) : CharText [c]
  /-- the short escapes, from the quotation mark to `\t` -/
  | escape {c : UInt8} (h : c ∈ [quote, backslash, 47, 98, 102, 110, 114, 116]) :
      CharText [backslash, c]
  | unicode {a b c d : UInt8} (ha : IsHex a) (hb : IsHex b) (hc : IsHex c) (hd : IsHex d) :
      CharText [backslash, lowerU, a, b, c, d]

/-- The text between quotes. -/
inductive CharsText : CString → Prop
  | nil : CharsText []
  | cons {c s : CString} (hc : CharText c) (hs : CharsText s) : CharsText (c ++ s)

/-- A quoted text. -/
inductive StringText : CString → Prop
  | quoted {s : CString} (h : CharsText s) : StringText (quote :: (s ++ [quote]))

/-- What holds items. -/
inductive Kind
  | array
  | object

/-- The opening bracket. -/
def Kind.opening : Kind → UInt8
  | array => lbracket
  | object => lbrace

/-- The closing bracket. -/
def Kind.close : Kind → UInt8
  | array => rbracket
  | object => rbrace

/-- The parts of a text: a value; an item with the white space behind it; what follows an item. -/
inductive Part
  | value
  | item (k : Kind)
  | rest (k : Kind)

/-- The texts of each part. -/
inductive Json : Part → CString → Prop
  | null : Json .value (ascii "null")
  | false : Json .value (ascii "false")
  | true : Json .value (ascii "true")
  | number {s : CString} (h : NumberText s) : Json .value s
  | string {s : CString} (h : StringText s) : Json .value s
  | empty {w : CString} (k : Kind) (hw : Ws w) : Json .value (k.opening :: (w ++ [k.close]))
  | container {w i r : CString} {k : Kind} (hw : Ws w) (hi : Json (.item k) i)
      (hr : Json (.rest k) r) : Json .value (k.opening :: (w ++ (i ++ r)))
  | element {v w : CString} (hv : Json .value v) (hw : Ws w) : Json (.item .array) (v ++ w)
  | member {s w₁ w₂ v w₃ : CString} (hs : StringText s) (h₁ : Ws w₁) (h₂ : Ws w₂)
      (hv : Json .value v) (h₃ : Ws w₃) :
      Json (.item .object) (s ++ (w₁ ++ colon :: (w₂ ++ (v ++ w₃))))
  | close (k : Kind) : Json (.rest k) [k.close]
  | next {w i r : CString} {k : Kind} (hw : Ws w) (hi : Json (.item k) i)
      (hr : Json (.rest k) r) : Json (.rest k) (comma :: (w ++ (i ++ r)))

/-! ## White space -/

/-- What comes is there and is not jumped over. -/
def Solid (rest : CString) : Prop := ∃ c rest', rest = c :: rest' ∧ isBlank c = false

/-- Blanks in front of something solid are skipped. -/
theorem skip_run {w rest : CString} (hw : Ws w) (h : Solid rest) :
    skip.run (w ++ rest) = some ((), rest) := by
  obtain ⟨c, rest', rfl, hc⟩ := h
  have hblank : ∀ x ∈ w, isBlank x = true := by
    intro x hx
    rcases hw x hx with rfl | rfl | rfl | rfl <;> rfl
  rw [skip, run_bind (span_run hblank hc)]
  rfl

theorem ws_nil : Ws [] := fun _ h => nomatch h

/-! ## Numbers -/

/-- What comes is there and ends a number. -/
def Delimits (rest : CString) : Prop :=
  ∃ c rest', rest = c :: rest' ∧ isDigit c = false ∧ c ≠ dot ∧ c ≠ lowerE ∧ c ≠ upperE

/-- `span isDigit` takes the digits and stops behind them. -/
theorem digits_run {ds rest : CString} (hds : AllDigits ds)
    (h : ∃ c rest', rest = c :: rest' ∧ isDigit c = false) :
    (span isDigit).run (ds ++ rest) = some (ds, rest) := by
  obtain ⟨c, rest', rfl, hc⟩ := h
  exact span_run hds hc

/-- What may follow the digits before the point. -/
theorem exponent_head {e rest : CString} (he : ExponentText e) (h : Delimits rest) :
    ∃ c rest', e ++ rest = c :: rest' ∧ isDigit c = false ∧ c ≠ dot := by
  obtain ⟨c, rest', rfl, hc, hdot, -, -⟩ := h
  cases he with
  | none => exact ⟨c, rest', rfl, hc, hdot⟩
  | digits he hs hds =>
    rcases he with rfl | rfl
    · exact ⟨_, _, rfl, rfl, by decide⟩
    · exact ⟨_, _, rfl, rfl, by decide⟩

/-- With a fraction in front of it, a text still begins with something that is no digit. -/
theorem fraction_head {f rest : CString} (hf : FractionText f)
    (h : ∃ c rest', rest = c :: rest' ∧ isDigit c = false) :
    ∃ c rest', f ++ rest = c :: rest' ∧ isDigit c = false := by
  cases hf with
  | none => exact h
  | digits hds => exact ⟨_, _, rfl, rfl⟩

/-- The integer part is read to its end, to the same value whatever follows. -/
theorem parse_int_run {i : CString} (hi : IntText i) :
    ∃ ds, ∀ rest, (∃ c rest', rest = c :: rest' ∧ isDigit c = false) →
      parse_int.run (i ++ rest) = some (ds, rest) := by
  -- a zero stands alone; other numbers begin with a digit from 1 to 9
  cases hi with
  | zero =>
    refine ⟨[], ?_⟩
    rintro _ ⟨c, rest', rfl, hc⟩
    -- what follows the zero is no digit
    have hno : ¬ (49 ≤ c ∧ c ≤ 57) := by
      rintro ⟨h1, h2⟩
      have h0 : 48 ≤ c := UInt8.le_trans (by decide) h1
      simp [isDigit, h0, h2] at hc
    rw [parse_int, List.cons_append, run_bind (accept_self _), List.nil_append,
      run_bind (peekAt_zero _), if_neg hno]
    rfl
  | @digits d ds hd hds =>
    have hne : d ≠ zero := by
      rintro rfl
      exact absurd hd.1 (by decide)
    have hdigit : isDigit d = true := by
      have h0 : 48 ≤ d := UInt8.le_trans (by decide) hd.1
      simp [isDigit, h0, hd.2]
    have hall : AllDigits (d :: ds) := by
      intro x hx
      rcases List.mem_cons.mp hx with rfl | hx
      · exact hdigit
      · exact hds x hx
    refine ⟨d :: ds, fun rest h => ?_⟩
    rw [parse_int, List.cons_append, run_bind (accept_ne hne), run_bind (peekAt_zero _), if_pos hd]
    exact digits_run hall h

/-- The fraction is read to its end. -/
theorem parse_fraction_run {f : CString} (hf : FractionText f) :
    ∃ ds, ∀ rest, (∃ c rest', rest = c :: rest' ∧ isDigit c = false ∧ c ≠ dot) →
      parse_fraction.run (f ++ rest) = some (ds, rest) := by
  cases hf with
  | none =>
    refine ⟨[], ?_⟩
    rintro _ ⟨c, rest', rfl, hc, hdot⟩
    rw [parse_fraction, List.nil_append, run_bind (peekAt_zero _), if_neg hdot]
    rfl
  | @digits d ds hds =>
    refine ⟨d :: ds, ?_⟩
    rintro _ ⟨c, rest', rfl, hc, hdot⟩
    have hsecond : (peekAt 1).run (dot :: d :: (ds ++ c :: rest')) =
        some (d, dot :: d :: (ds ++ c :: rest')) := rfl
    rw [parse_fraction, List.cons_append, List.cons_append, run_bind (peekAt_zero _), if_pos rfl,
      run_bind hsecond, if_pos (hds d List.mem_cons_self), run_bind (forward_one _)]
    exact digits_run hds ⟨c, rest', rfl, hc⟩

theorem parse_sign_run {s : CString} (hs : SignText s) :
    ∃ b, ∀ rest, (∃ d rest', rest = d :: rest' ∧ isDigit d = true) →
      parse_sign.run (s ++ rest) = some (b, rest) := by
  -- the plus is tried first, then the minus
  cases hs with
  | none =>
    refine ⟨false, ?_⟩
    rintro _ ⟨d, rest', rfl, hd⟩
    have hplus : d ≠ plus := by
      rintro rfl
      cases hd
    have hminus : d ≠ minus := by
      rintro rfl
      cases hd
    rw [parse_sign, List.nil_append, run_bind (accept_ne hplus)]
    exact accept_ne hminus
  | plus =>
    refine ⟨false, fun rest _ => ?_⟩
    rw [parse_sign, List.cons_append, run_bind (accept_self _)]
    rfl
  | minus =>
    refine ⟨true, fun rest _ => ?_⟩
    rw [parse_sign, List.cons_append, run_bind (accept_ne (by decide))]
    exact accept_self minus

/-- The exponent is read to its end. -/
theorem parse_exponent_run {e : CString} (he : ExponentText e) :
    ∃ x, ∀ rest, Delimits rest → parse_exponent.run (e ++ rest) = some (x, rest) := by
  -- without an `e` the number ends; else the sign and the digits follow
  cases he with
  | none =>
    refine ⟨(false, []), ?_⟩
    rintro _ ⟨c, rest', rfl, hc, -, hlower, hupper⟩
    rw [parse_exponent, List.nil_append, run_bind (peekAt_zero _),
      if_neg (not_or.mpr ⟨hlower, hupper⟩)]
    rfl
  | @digits e d s ds he hs hds =>
    obtain ⟨b, hsign⟩ := parse_sign_run hs
    refine ⟨(b, d :: ds), ?_⟩
    rintro _ ⟨c, rest', rfl, hc, -, -, -⟩
    have hdigits : ∃ d' rest'', d :: (ds ++ c :: rest') = d' :: rest'' ∧ isDigit d' = true :=
      ⟨d, _, rfl, hds d List.mem_cons_self⟩
    have hspan := digits_run hds ⟨c, rest', rfl, hc⟩
    rw [parse_exponent, List.cons_append, run_bind (peekAt_zero _), if_pos he,
      run_bind (forward_one _), List.append_assoc, List.cons_append, run_bind (hsign _ hdigits),
      bind_run]
    rw [List.cons_append] at hspan
    rw [hspan]
    rfl

/-- The three parts of a number are read one after the other. -/
theorem magnitude_run {i f e : CString} (hi : IntText i) (hf : FractionText f)
    (he : ExponentText e) (negative : Bool) :
    ∃ n, ∀ rest, Delimits rest → (do
      let int ← parse_int
      let frac ← parse_fraction
      let exponent ← parse_exponent
      pure (⟨negative, int, frac, exponent.1, exponent.2⟩ : Numeral)).run (i ++ (f ++ (e ++ rest))) =
        some (n, rest) := by
  obtain ⟨ds, hint⟩ := parse_int_run hi
  obtain ⟨ds', hfrac⟩ := parse_fraction_run hf
  obtain ⟨x, hexponent⟩ := parse_exponent_run he
  refine ⟨⟨negative, ds, ds', x.1, x.2⟩, fun rest h => ?_⟩
  have hexp := exponent_head he h
  have hhead : ∃ c rest', e ++ rest = c :: rest' ∧ isDigit c = false := by
    obtain ⟨c, rest', heq, hc, -⟩ := hexp
    exact ⟨c, rest', heq, hc⟩
  rw [run_bind (hint _ (fraction_head hf hhead)), run_bind (hfrac _ hexp), run_bind (hexponent _ h)]
  rfl

/-- The integer part begins with a digit. -/
theorem int_head {i : CString} (hi : IntText i) : ∃ d ds, i = d :: ds ∧ isDigit d = true := by
  cases hi with
  | zero => exact ⟨_, _, rfl, rfl⟩
  | @digits d ds hd hds =>
    have h0 : 48 ≤ d := UInt8.le_trans (by decide) hd.1
    exact ⟨d, ds, rfl, by simp [isDigit, h0, hd.2]⟩

/-- A number is read to its end, to the same numeral whatever follows. -/
theorem parse_number_run {s : CString} (hs : NumberText s) :
    ∃ n, ∀ rest, Delimits rest → parse_number.run (s ++ rest) = some (n, rest) := by
  cases hs with
  | @positive i f e hi hf he =>
    obtain ⟨n, hn⟩ := magnitude_run hi hf he false
    obtain ⟨d, ds, rfl, hd⟩ := int_head hi
    have hne : d ≠ minus := by
      rintro rfl
      cases hd
    refine ⟨n, fun rest h => ?_⟩
    rw [List.append_assoc, List.append_assoc, parse_number, List.cons_append,
      run_bind (accept_ne hne)]
    exact hn rest h
  | @negative i f e hi hf he =>
    obtain ⟨n, hn⟩ := magnitude_run hi hf he true
    refine ⟨n, fun rest h => ?_⟩
    rw [List.cons_append, List.append_assoc, List.append_assoc, parse_number,
      run_bind (accept_self _)]
    exact hn rest h

/-- Every number is the beginning of a longer one. -/
theorem NumberText.extend {s : CString} (hs : NumberText s) : ∃ x, x ≠ [] ∧ NumberText (s ++ x) := by
  -- a zero can be written behind any exponent, with an `e0` where there is none
  have hexp : ∀ {e : CString}, ExponentText e → ∃ x, x ≠ [] ∧ ExponentText (e ++ x) := by
    intro e he
    cases he with
    | none =>
      refine ⟨[lowerE, zero], by simp, .digits (Or.inl rfl) .none fun x hx => ?_⟩
      rw [List.mem_singleton.mp hx]
      rfl
    | @digits e d s ds he hs hds =>
      refine ⟨[zero], by simp, ?_⟩
      rw [List.cons_append, List.append_assoc, List.cons_append]
      refine .digits he hs fun x hx => ?_
      rw [← List.cons_append, List.mem_append] at hx
      rcases hx with hx | hx
      · exact hds x hx
      · rw [List.mem_singleton.mp hx]
        rfl
  cases hs with
  | positive hi hf he =>
    obtain ⟨x, hx, hex⟩ := hexp he
    refine ⟨x, hx, ?_⟩
    rw [List.append_assoc, List.append_assoc]
    exact .positive hi hf hex
  | negative hi hf he =>
    obtain ⟨x, hx, hex⟩ := hexp he
    refine ⟨x, hx, ?_⟩
    rw [List.cons_append, List.append_assoc, List.append_assoc]
    exact .negative hi hf hex

/-! ## Strings -/

/-- Peeking moves nothing. -/
theorem peekAt_run (i : Nat) (bs : List UInt8) :
    (peekAt i).run bs = bs[i]?.map fun c => (c, bs) := rfl

/-- Hexadecimal digits somewhere ahead. -/
theorem parse_hex_run (hs : CString) (hhs : ∀ c ∈ hs, IsHex c) :
    ∀ {pre : CString} {i : Nat} (h : Nat), pre.length = i →
      ∃ x, ∀ rest, (parse_hex hs.length i h).run (pre ++ (hs ++ rest)) =
        some (x, pre ++ (hs ++ rest)) := by
  induction hs with
  | nil => exact fun h _ => ⟨h, fun _ => rfl⟩
  | cons c hs ih =>
    intro pre i h hi
    obtain ⟨d, hd⟩ := Option.isSome_iff_exists.mp (hhs c List.mem_cons_self)
    have hlen : (pre ++ [c]).length = i + 1 := by simp [hi]
    obtain ⟨x, hx⟩ := ih (fun c' hc' => hhs c' (List.mem_cons_of_mem c hc')) (h * 16 + d) hlen
    refine ⟨x, fun rest => ?_⟩
    have hpeek : (peekAt i).run (pre ++ (c :: hs ++ rest)) = some (c, pre ++ (c :: hs ++ rest)) := by
      rw [peekAt_run, List.getElem?_append_right (Nat.le_of_eq hi), hi, Nat.sub_self]
      rfl
    have hrec := hx rest
    rw [List.append_assoc] at hrec
    rw [List.length_cons, parse_hex, run_bind hpeek, hd]
    exact hrec

/-- Four hexadecimal digits are read where they stand. -/
theorem parse_hex4_run (pre : CString) {a b c d : UInt8} {i : Nat} (hi : pre.length = i)
    (ha : IsHex a) (hb : IsHex b) (hc : IsHex c) (hd : IsHex d) :
    ∃ h, ∀ rest, (parse_hex4 i).run (pre ++ a :: b :: c :: d :: rest) =
      some (h, pre ++ a :: b :: c :: d :: rest) :=
  parse_hex_run [a, b, c, d] (by simp [ha, hb, hc, hd]) 0 hi

/-- The escape of a code unit. -/
inductive UnicodeText : CString → Prop
  | unicode {a b c d : UInt8} (ha : IsHex a) (hb : IsHex b) (hc : IsHex c) (hd : IsHex d) :
      UnicodeText [backslash, lowerU, a, b, c, d]

/-- A code point takes at most five bytes. -/
theorem utf8_length (uc : Nat) : (utf8 uc).length ≤ 5 := by
  rw [utf8]
  split_ifs <;> simp

/-- Moving forward over a text leaves what follows it. -/
theorem forward_pure_run {u rest out : CString} {n : Nat} (hn : u.length = n) :
    (do forward n; pure out : Parser UInt8 CString).run (u ++ rest) = some (out, rest) := by
  rw [run_bind (forward_append hn)]
  rfl

/-- What a program does that copies the escape `u`: it copies `u` alone or together with the escape
    behind it, and writes a few bytes. -/
def Copies (p : Parser UInt8 CString) (u s : CString) : Prop :=
  ∃ out s', out.length ≤ 5 ∧ (s' = s ∨ ∃ u', UnicodeText u' ∧ s = u' ++ s' ∧ CharsText s') ∧
    ∀ rest, p.run (u ++ (s ++ quote :: rest)) = some (out, s' ++ quote :: rest)

/-- A parser that needs nothing of what follows copies its own text. -/
theorem copies_alone {p : Parser UInt8 CString} {u s : CString} (out : CString) (hout : out.length ≤ 5)
    (h : ∀ rest, p.run (u ++ (s ++ quote :: rest)) = some (out, s ++ quote :: rest)) :
    Copies p u s := ⟨out, s, hout, Or.inl rfl, h⟩

/-- A surrogate takes the next escape with it if that is one of a code unit, too. -/
theorem parse_surrogate_copies (uc : Nat) {u s : CString} (hu : u.length = 6) (hs : CharsText s) :
    Copies (parse_surrogate uc) u s := by
  have hsixth : ∀ c bs, (peekAt 6).run (u ++ c :: bs) = some (c, u ++ c :: bs) := by
    intro c bs
    rw [peekAt_run, List.getElem?_append_right (by omega), hu]
    rfl
  have hseventh : ∀ c d bs, (peekAt 7).run (u ++ c :: d :: bs) = some (d, u ++ c :: d :: bs) := by
    intro c d bs
    rw [peekAt_run, List.getElem?_append_right (by omega), hu]
    rfl
  -- the next character is not a backslash
  have hother : ∀ {c : UInt8} {s' : CString}, (∀ rest, ∃ bs, s' ++ quote :: rest = c :: bs) →
      c ≠ backslash → Copies (parse_surrogate uc) u s' := by
    intro c s' hhead hc
    refine copies_alone [] (by decide) fun rest => ?_
    obtain ⟨bs, heq⟩ := hhead rest
    rw [parse_surrogate, heq, run_bind (hsixth _ _), if_pos hc]
    exact forward_pure_run hu
  cases hs with
  | nil => exact hother (fun rest => ⟨rest, rfl⟩) (by decide)
  | @cons c s hc hs =>
    cases hc with
    | @plain c h => exact hother (fun rest => ⟨s ++ quote :: rest, rfl⟩) h.2.2
    | @escape c h =>
      have hne : c ≠ lowerU := by
        rintro rfl
        exact absurd h (by decide)
      refine copies_alone [] (by decide) fun rest => ?_
      rw [parse_surrogate, List.append_assoc, List.cons_append, List.cons_append,
        run_bind (hsixth _ _), if_neg (by simp), run_bind (hseventh _ _ _), if_pos hne]
      exact forward_pure_run hu
    | @unicode a b c d ha hb hc hd =>
      have hlen : (u ++ [backslash, lowerU]).length = 8 := by simp [hu]
      have hlen' : (u ++ [backslash, lowerU, a, b, c, d]).length = 12 := by simp [hu]
      obtain ⟨uc2, hhex⟩ := parse_hex4_run _ hlen ha hb hc hd
      refine ⟨if uc2 < 0xDC00 ∨ 0xDFFF < uc2 then [] else utf8 (surrogates uc uc2), s, ?_,
        Or.inr ⟨_, .unicode ha hb hc hd, rfl, hs⟩, fun rest => ?_⟩
      · split
        · decide
        · exact utf8_length _
      · have hrun := hhex (s ++ quote :: rest)
        simp only [List.append_assoc, List.cons_append, List.nil_append] at hrun ⊢
        rw [parse_surrogate, run_bind (hsixth _ _), if_neg (by simp), run_bind (hseventh _ _ _),
          if_neg (by simp), run_bind hrun, bind_run]
        have hforward : (forward 12).run (u ++ [backslash, lowerU, a, b, c, d] ++
            (s ++ quote :: rest)) = some ((), s ++ quote :: rest) := forward_append hlen'
        simp only [List.append_assoc, List.cons_append, List.nil_append] at hforward
        rw [hforward, Option.bind_some]
        split
        · rfl
        · rfl

/-- A `\u` escape is copied, alone or as a surrogate pair. -/
theorem parse_unicode_copies {u s : CString} (hu : UnicodeText u) (hs : CharsText s) :
    Copies parse_unicode u s := by
  cases hu with
  | @unicode a b c d ha hb hc hd =>
    obtain ⟨uc, hhex⟩ := parse_hex4_run [backslash, lowerU] rfl ha hb hc hd
    -- the four digits are the same, whatever follows
    have hrun : ∀ rest, parse_unicode.run ([backslash, lowerU, a, b, c, d] ++ rest) =
        (if (0xDC00 ≤ uc ∧ uc ≤ 0xDFFF) ∨ uc = 0 then
          (do forward 6; pure [] : Parser UInt8 CString)
        else if 0xD800 ≤ uc ∧ uc ≤ 0xDBFF then parse_surrogate uc
        else (do forward 6; pure (utf8 uc))).run ([backslash, lowerU, a, b, c, d] ++ rest) := by
      intro rest
      have hpeek := hhex rest
      rw [parse_unicode, bind_run]
      exact congrArg (fun r => Option.bind r _) hpeek
    -- a code unit that cannot stand here is dropped
    by_cases hinvalid : (0xDC00 ≤ uc ∧ uc ≤ 0xDFFF) ∨ uc = 0
    · refine copies_alone [] (by decide) fun rest => ?_
      rw [hrun, if_pos hinvalid]
      exact forward_pure_run rfl
    -- the first half of a pair looks at what follows
    · by_cases hfirst : 0xD800 ≤ uc ∧ uc ≤ 0xDBFF
      · obtain ⟨out, s', hout, hs', hcopy⟩ := parse_surrogate_copies uc (u := [_, _, a, b, c, d]) rfl hs
        refine ⟨out, s', hout, hs', fun rest => ?_⟩
        rw [hrun, if_neg hinvalid, if_pos hfirst]
        exact hcopy rest
      · refine copies_alone (utf8 uc) (utf8_length uc) fun rest => ?_
        rw [hrun, if_neg hinvalid, if_neg hfirst]
        exact forward_pure_run rfl

/-- One more round of the loop that copies. -/
theorem copyString_succ {fuel : Nat} {c : UInt8} {bs mid rest out more : CString}
    (hc : c ≠ quote ∧ c ≠ 0) (hout : copyChar.run (c :: bs) = some (out, mid))
    (hmore : (copyString fuel).run mid = some (more, rest)) :
    (copyString (fuel + 1)).run (c :: bs) = some (out ++ more, rest) := by
  rw [copyString, run_bind (peekAt_zero _), if_neg (not_or.mpr hc), run_bind hout, run_bind hmore]
  rfl

/-- One more round of the loop that counts. -/
theorem stringLength_succ {fuel len : Nat} {c : UInt8} {bs mid rest : CString}
    (hc : c ≠ quote ∧ c ≠ 0)
    (hforward : (forward (if c = backslash then 2 else 1)).run (c :: bs) = some ((), mid))
    (hlen : (stringLength fuel).run mid = some (len, rest)) :
    (stringLength (fuel + 1)).run (c :: bs) = some (len + 1, rest) := by
  rw [stringLength, run_bind (peekAt_zero _), if_neg (not_or.mpr hc), run_bind hforward,
    run_bind hlen]
  rfl

/-- A plain character counts as one byte. -/
theorem stringLength_plain {fuel len : Nat} {c : UInt8} {bs rest : CString}
    (hc : c ≠ quote ∧ c ≠ 0) (hplain : c ≠ backslash)
    (hlen : (stringLength fuel).run bs = some (len, rest)) :
    (stringLength (fuel + 1)).run (c :: bs) = some (len + 1, rest) := by
  refine stringLength_succ hc ?_ hlen
  rw [if_neg hplain]
  exact forward_one c

/-- An escaped character counts as one byte. -/
theorem stringLength_escape {fuel len : Nat} {c : UInt8} {bs rest : CString}
    (hlen : (stringLength fuel).run bs = some (len, rest)) :
    (stringLength (fuel + 1)).run (backslash :: c :: bs) = some (len + 1, rest) :=
  stringLength_succ (by decide) (forward_append (w := [backslash, c]) rfl) hlen

/-- A hexadecimal digit is a character like any other to the loop that counts. -/
theorem isHex_plain {c : UInt8} (h : IsHex c) : (c ≠ quote ∧ c ≠ 0) ∧ c ≠ backslash := by
  refine ⟨⟨?_, ?_⟩, ?_⟩ <;> rintro rfl <;> exact absurd h (by decide)

/-- A `\u` escape counts as five bytes. -/
theorem stringLength_unicode {fuel len : Nat} {u bs rest : CString} (hu : UnicodeText u)
    (hlen : (stringLength fuel).run bs = some (len, rest)) :
    (stringLength (fuel + 5)).run (u ++ bs) = some (len + 5, rest) := by
  cases hu with
  | unicode ha hb hc hd =>
    have h1 := stringLength_plain (isHex_plain hd).1 (isHex_plain hd).2 hlen
    have h2 := stringLength_plain (isHex_plain hc).1 (isHex_plain hc).2 h1
    have h3 := stringLength_plain (isHex_plain hb).1 (isHex_plain hb).2 h2
    have h4 := stringLength_plain (isHex_plain ha).1 (isHex_plain ha).2 h3
    exact stringLength_escape h4

/-- A string is counted and copied, and there is room for the copy. -/
def Copied (s : CString) : Prop :=
  ∃ len out, out.length ≤ len ∧ ∀ fuel rest, s.length < fuel →
    (stringLength fuel).run (s ++ quote :: rest) = some (len, quote :: rest) ∧
      (copyString fuel).run (s ++ quote :: rest) = some (out, quote :: rest)

/-- No text is copied at the closing quote. -/
theorem copied_nil : Copied [] := by
  refine ⟨0, [], Nat.le_refl _, fun fuel rest hfuel => ?_⟩
  cases fuel with
  | zero => cases hfuel
  | succ fuel =>
    constructor
    · rw [stringLength, List.nil_append, run_bind (peekAt_zero _), if_pos (Or.inl rfl)]
      rfl
    · rw [copyString, List.nil_append, run_bind (peekAt_zero _), if_pos (Or.inl rfl)]
      rfl

/-- A plain character is copied, and there is room for it. -/
theorem copied_plain {c : UInt8} {s : CString} (h : 32 ≤ c ∧ c ≠ quote ∧ c ≠ backslash)
    (hs : Copied s) : Copied (c :: s) := by
  obtain ⟨len, out, hroom, hread⟩ := hs
  have hc : c ≠ quote ∧ c ≠ 0 := by
    refine ⟨h.2.1, ?_⟩
    rintro rfl
    exact absurd h.1 (by decide)
  refine ⟨len + 1, [c] ++ out, by simpa using hroom, fun fuel rest hfuel => ?_⟩
  cases fuel with
  | zero => cases hfuel
  | succ fuel =>
    obtain ⟨hlen, hcopy⟩ := hread fuel rest (by simpa using hfuel)
    refine ⟨stringLength_plain hc h.2.2 hlen, copyString_succ hc ?_ hcopy⟩
    rw [copyChar, run_bind (peekAt_zero _), if_pos h.2.2]
    exact forward_pure_run (u := [c]) rfl

/-- An escaped character is copied, and there is room for it. -/
theorem copied_escape {c : UInt8} {s : CString}
    (h : c ∈ [quote, backslash, 47, 98, 102, 110, 114, 116]) (hs : Copied s) :
    Copied (backslash :: c :: s) := by
  obtain ⟨len, out, hroom, hread⟩ := hs
  have hne : c ≠ lowerU := by
    rintro rfl
    exact absurd h (by decide)
  refine ⟨len + 1, [unescape c] ++ out, by simpa using hroom, fun fuel rest hfuel => ?_⟩
  cases fuel with
  | zero => cases hfuel
  | succ fuel =>
    rw [List.length_cons, List.length_cons] at hfuel
    obtain ⟨hlen, hcopy⟩ := hread fuel rest (by omega)
    refine ⟨stringLength_escape hlen, copyString_succ (by decide) ?_ hcopy⟩
    have hsecond : (peekAt 1).run (backslash :: c :: (s ++ quote :: rest)) =
        some (c, backslash :: c :: (s ++ quote :: rest)) := rfl
    show copyChar.run (backslash :: c :: (s ++ quote :: rest)) = _
    rw [copyChar, run_bind (peekAt_zero _), if_neg (by simp), run_bind hsecond, if_neg hne]
    exact forward_pure_run (u := [backslash, c]) rfl

/-- A `\u` escape has six bytes. -/
theorem unicode_length {u : CString} (hu : UnicodeText u) : u.length = 6 := by
  cases hu
  rfl

/-- At a `\u` escape the copy calls `parse_unicode`. -/
theorem copyChar_unicode {u : CString} (hu : UnicodeText u) (bs : CString) :
    (∃ c tail, u ++ bs = c :: tail ∧ c ≠ quote ∧ c ≠ 0) ∧
      copyChar.run (u ++ bs) = parse_unicode.run (u ++ bs) := by
  cases hu with
  | @unicode a b c d ha hb hc hd =>
    refine ⟨⟨_, _, rfl, by decide⟩, ?_⟩
    have hsecond : (peekAt 1).run (backslash :: lowerU :: a :: b :: c :: d :: bs) =
        some (lowerU, backslash :: lowerU :: a :: b :: c :: d :: bs) := rfl
    show copyChar.run (backslash :: lowerU :: a :: b :: c :: d :: bs) = _
    rw [copyChar, run_bind (peekAt_zero _), if_neg (by simp), run_bind hsecond, if_pos rfl]
    rfl

/-- A `\u` escape is copied, and so is the next one if it makes a pair. -/
theorem copied_unicode {u s : CString} (hu : UnicodeText u) (hs : CharsText s) (hcopied : Copied s)
    (hnext : ∀ u' s', UnicodeText u' → s = u' ++ s' → CharsText s' → Copied s') :
    Copied (u ++ s) := by
  have hulen := unicode_length hu
  obtain ⟨out, s', hout, hs', hcopy⟩ := parse_unicode_copies hu hs
  have hcopyChar : ∀ {fuel rest more}, (copyString fuel).run (s' ++ quote :: rest) =
      some (more, quote :: rest) →
      (copyString (fuel + 1)).run (u ++ (s ++ quote :: rest)) = some (out ++ more, quote :: rest) := by
    intro fuel rest more hmore
    obtain ⟨⟨c, tail, heq, hc⟩, hrun⟩ := copyChar_unicode hu (s ++ quote :: rest)
    have hchar := hrun.trans (hcopy rest)
    rw [heq] at hchar ⊢
    exact copyString_succ hc hchar hmore
  rcases hs' with rfl | ⟨u', hu', rfl, htail⟩
  · obtain ⟨len, out', hroom, hread⟩ := hcopied
    refine ⟨len + 5, out ++ out', by rw [List.length_append]; omega, fun fuel rest hfuel => ?_⟩
    rw [List.length_append, hulen] at hfuel
    obtain ⟨k, rfl⟩ : ∃ k, fuel = k + 5 := ⟨fuel - 5, by omega⟩
    rw [List.append_assoc]
    exact ⟨stringLength_unicode hu (hread k rest (by omega)).1,
      hcopyChar (hread (k + 4) rest (by omega)).2⟩
  · -- two escapes at once
    have hulen' := unicode_length hu'
    obtain ⟨len, out', hroom, hread⟩ := hnext u' s' hu' rfl htail
    refine ⟨len + 5 + 5, out ++ out', by rw [List.length_append]; omega, fun fuel rest hfuel => ?_⟩
    rw [List.length_append, List.length_append, hulen, hulen'] at hfuel
    obtain ⟨k, rfl⟩ : ∃ k, fuel = k + 5 + 5 := ⟨fuel - 10, by omega⟩
    refine ⟨?_, ?_⟩
    · rw [List.append_assoc, List.append_assoc]
      exact stringLength_unicode hu (stringLength_unicode hu' (hread k rest (by omega)).1)
    · rw [List.append_assoc]
      exact hcopyChar (hread (k + 9) rest (by omega)).2

/-- Every string is copied; two escapes that are copied at once are the reason for the bound. -/
theorem chars_read (n : Nat) : ∀ {s : CString}, CharsText s → s.length ≤ n → Copied s := by
  -- induction on the length, for an escape takes several bytes off and maybe the next escape with it
  induction n with
  | zero =>
    intro s hs hlen
    rw [List.length_eq_zero_iff.mp (Nat.le_zero.mp hlen)]
    exact copied_nil
  | succ n ih =>
    intro s hs hlen
    cases hs with
    | nil => exact copied_nil
    | @cons c s hc hs =>
      have hlen' : s.length ≤ n := by
        have hpos : 0 < c.length := by cases hc <;> exact Nat.succ_pos _
        rw [List.length_append] at hlen
        omega
      cases hc with
      | plain h => exact copied_plain h (ih hs hlen')
      | escape h => exact copied_escape h (ih hs hlen')
      | unicode ha hb hc hd =>
        -- the text behind a pair is shorter still
        refine copied_unicode (.unicode ha hb hc hd) hs (ih hs hlen') fun u' s' hu' heq htail => ?_
        refine ih htail ?_
        rw [heq, List.length_append] at hlen'
        omega

/-- A quoted text is read to its end, to the same text whatever follows. -/
theorem parse_string_run {s : CString} (hs : StringText s) :
    ∃ v, ∀ fuel rest, s.length ≤ fuel → (parse_string fuel).run (s ++ rest) = some (some v, rest) := by
  cases hs with
  | @quoted s h =>
    obtain ⟨len, out, hroom, hread⟩ := chars_read s.length h (Nat.le_refl _)
    refine ⟨out.takeWhile (· ≠ 0), fun fuel rest hfuel => ?_⟩
    rw [List.length_cons, List.length_append] at hfuel
    obtain ⟨hlen, hcopy⟩ := hread fuel rest (by omega)
    have hlook : (lookahead (stringLength fuel)).run (s ++ quote :: rest) =
        some (len, s ++ quote :: rest) := by
      show ((stringLength fuel).run _).map _ = _
      rw [hlen]
      rfl
    have hassoc : quote :: (s ++ [quote]) ++ rest = quote :: (s ++ quote :: rest) := by simp
    rw [hassoc, parse_string, run_bind (peekAt_zero _), if_neg (by simp), run_bind (forward_one _),
      run_bind hlook, run_bind hcopy, if_neg (Nat.not_lt.mpr hroom), run_bind (accept_self _)]
    rfl

/-! ## Heads -/

/-- What a part can begin with. -/
def Part.Starts : Part → UInt8 → Prop
  | value, c => 32 < c ∧ c ≠ rbracket ∧ c ≠ rbrace
  | item _, c => 32 < c ∧ c ≠ rbracket ∧ c ≠ rbrace
  | rest k, c => c = comma ∨ c = k.close

theorem isBlank_of_lt {c : UInt8} (h : 32 < c) : isBlank c = false := by
  have hnot : ¬ c ≤ 32 := UInt8.not_le.mpr h
  simp [isBlank, hnot]

/-- A digit can begin a value. -/
theorem digit_starts {c : UInt8} (h : isDigit c = true) : Part.value.Starts c := by
  rw [isDigit, Bool.and_eq_true, decide_eq_true_eq, decide_eq_true_eq] at h
  refine ⟨UInt8.lt_of_lt_of_le (by decide) h.1, ?_, ?_⟩
  · rintro rfl
    exact absurd h.2 (by decide)
  · rintro rfl
    exact absurd h.2 (by decide)

/-- The first character of a number can begin a value. -/
theorem number_starts {s : CString} (hs : NumberText s) :
    ∃ c s', s = c :: s' ∧ (c = minus ∨ isDigit c = true) ∧ Part.value.Starts c := by
  cases hs with
  | positive hi hf he =>
    obtain ⟨d, ds, rfl, hd⟩ := int_head hi
    exact ⟨d, _, rfl, Or.inr hd, digit_starts hd⟩
  | negative hi hf he => exact ⟨minus, _, rfl, Or.inl rfl, by decide, by decide, by decide⟩

/-- A bracket can begin a value. -/
theorem opening_starts (k : Kind) : Part.value.Starts k.opening := by
  cases k with
  | array => exact ⟨by decide, by decide, by decide⟩
  | object => exact ⟨by decide, by decide, by decide⟩

/-- Every part begins with what it can begin with. -/
theorem Json.head {p : Part} {s : CString} (h : Json p s) : ∃ c s', s = c :: s' ∧ p.Starts c := by
  induction h with
  | null | false | true => exact ⟨_, _, rfl, by decide, by decide, by decide⟩
  | number h =>
    obtain ⟨c, s', rfl, -, hc⟩ := number_starts h
    exact ⟨c, s', rfl, hc⟩
  | string h =>
    cases h
    exact ⟨quote, _, rfl, by decide, by decide, by decide⟩
  | empty k hw => exact ⟨_, _, rfl, opening_starts k⟩
  | @container w i r k hw hi hr => exact ⟨_, _, rfl, opening_starts k⟩
  | element hv hw ih =>
    obtain ⟨c, s', rfl, hc⟩ := ih
    exact ⟨c, _, rfl, hc⟩
  | member hs =>
    cases hs
    exact ⟨quote, _, rfl, by decide, by decide, by decide⟩
  | close k => exact ⟨_, _, rfl, Or.inr rfl⟩
  | next hw hi hr => exact ⟨_, _, rfl, Or.inl rfl⟩

/-- JSON text begins with something solid. -/
theorem solid_of_json {p : Part} {s rest : CString} (h : Json p s) : Solid (s ++ rest) := by
  obtain ⟨c, s', rfl, hc⟩ := h.head
  refine ⟨c, s' ++ rest, rfl, ?_⟩
  cases p with
  | value => exact isBlank_of_lt hc.1
  | item k => exact isBlank_of_lt hc.1
  | rest k =>
    rcases hc with rfl | rfl
    · rfl
    · cases k with
      | array => rfl
      | object => rfl

/-! ## Values -/

/-- A literal is recognised in front of any text. -/
theorem literal_self (lit : CString) (i : Item) (p : Parser UInt8 (Option Value)) (rest : CString) :
    (literal lit i p).run (lit ++ rest) = some (some (leaf i), rest) := by
  rw [literal, run_bind (startsWith_self _), if_pos rfl, run_bind (forward_append rfl)]
  rfl

/-- A text that begins otherwise is not the literal. -/
theorem literal_ne {l c : UInt8} (h : c ≠ l) (lit : CString) (i : Item)
    (p : Parser UInt8 (Option Value)) (bs : CString) :
    (literal (l :: lit) i p).run (c :: bs) = p.run (c :: bs) := by
  rw [literal, run_bind (startsWith_ne h _), if_neg Bool.false_ne_true]

/-- The letters of `null`. -/
theorem ascii_null : ascii "null" = [110, 117, 108, 108] := by decide

/-- The letters of `false`. -/
theorem ascii_false : ascii "false" = [102, 97, 108, 115, 101] := by decide

/-- The letters of `true`. -/
theorem ascii_true : ascii "true" = [116, 114, 117, 101] := by decide

/-- What the parser of the items of a container is. -/
def Kind.parser : Kind → Nat → Parser UInt8 (Option Value) → Parser UInt8 (Option Value)
  | array, _, value => parse_element value
  | object, fuel, value => parse_member fuel value

/-- What follows an item. -/
def Kind.Ends (k : Kind) (rest : CString) : Prop :=
  ∃ c rest', rest = c :: rest' ∧ (c = comma ∨ c = k.close)

section Double

variable (double : Numeral → Rat)

/-- The parser reads the part and stops behind it. -/
def Read : Part → CString → Prop
  | .value, s => ∃ v, ∀ fuel rest, s.length < fuel → (NumberText s → Delimits rest) →
      (parse_value double fuel).run (s ++ rest) = some (some v, rest)
  | .item k, s => ∃ v, ∀ fuel rest, s.length < fuel → k.Ends rest →
      (k.parser fuel (parse_value double fuel)).run (s ++ rest) = some (some v, rest)
  | .rest k, s => ∃ vs, ∀ fuel rounds rest, s.length < fuel → s.length ≤ rounds →
      (parse_rest k.close (k.parser fuel (parse_value double fuel)) rounds).run (s ++ rest) =
        some (some vs, rest)

variable {double}

/-- Where no literal begins, the other values are tried. -/
theorem parse_value_other {fuel : Nat} {c : UInt8} {bs : CString}
    (h : c ≠ 110 ∧ c ≠ 102 ∧ c ≠ 116) :
    (parse_value double (fuel + 1)).run (c :: bs) =
      (parse_other double fuel (parse_value double fuel)).run (c :: bs) := by
  rw [parse_value, ascii_null, ascii_false, ascii_true, literal_ne h.1, literal_ne h.2.1,
    literal_ne h.2.2]

theorem read_null : Read double .value (ascii "null") := by
  refine ⟨leaf { newItem with type := .NULL }, fun fuel rest hfuel _ => ?_⟩
  cases fuel with
  | zero => cases hfuel
  | succ fuel => exact literal_self _ _ _ rest

theorem read_false : Read double .value (ascii "false") := by
  refine ⟨leaf newItem, fun fuel rest hfuel _ => ?_⟩
  cases fuel with
  | zero => cases hfuel
  | succ fuel =>
    rw [parse_value, ascii_null, ascii_false, List.cons_append, literal_ne (by decide)]
    exact literal_self _ _ _ rest

theorem read_true : Read double .value (ascii "true") := by
  refine ⟨leaf { newItem with type := .True, valueint := 1 }, fun fuel rest hfuel _ => ?_⟩
  cases fuel with
  | zero => cases hfuel
  | succ fuel =>
    rw [parse_value, ascii_null, ascii_false, ascii_true, List.cons_append, literal_ne (by decide),
      literal_ne (by decide)]
    exact literal_self _ _ _ rest

theorem read_number {s : CString} (hs : NumberText s) : Read double .value s := by
  obtain ⟨n, hn⟩ := parse_number_run hs
  refine ⟨leaf (numberItem double n), fun fuel rest hfuel hrest => ?_⟩
  cases fuel with
  | zero => cases hfuel
  | succ fuel =>
    have hrun := hn rest (hrest hs)
    obtain ⟨c, s', rfl, hc, -⟩ := number_starts hs
    have hletters : c ≠ 110 ∧ c ≠ 102 ∧ c ≠ 116 := by
      refine ⟨?_, ?_, ?_⟩ <;> rintro rfl <;> exact absurd hc (by decide)
    have hquote : c ≠ quote := by
      rintro rfl
      exact absurd hc (by decide)
    rw [List.cons_append] at hrun ⊢
    rw [parse_value_other hletters, parse_other, run_bind (peekAt_zero _), if_neg hquote, if_pos hc,
      run_bind hrun]
    rfl

theorem read_string {s : CString} (hs : StringText s) : Read double .value s := by
  obtain ⟨v, hv⟩ := parse_string_run hs
  refine ⟨leaf { newItem with type := .String, valuestring := some v }, fun fuel rest hfuel _ => ?_⟩
  cases fuel with
  | zero => cases hfuel
  | succ fuel =>
    have hrun := hv fuel rest (Nat.le_of_lt_succ hfuel)
    cases hs with
    | quoted h =>
      rw [List.cons_append] at hrun ⊢
      rw [parse_value_other (by decide), parse_other, run_bind (peekAt_zero _), if_pos rfl,
        andThen_some hrun]
      rfl

/-- The node of a container. -/
def Kind.node : Kind → List Value → Value
  | array, vs => .mk () { newItem with type := .Array } vs
  | object, vs => .mk () { newItem with type := .Object } vs

/-- A container is told by its opening character. -/
theorem parse_container {fuel : Nat} (k : Kind) {bs rest : CString} {vs : List Value}
    (h : (parse_items k.close (k.parser fuel (parse_value double fuel)) fuel).run
      (k.opening :: bs) = some (some vs, rest)) :
    (parse_value double (fuel + 1)).run (k.opening :: bs) = some (some (k.node vs), rest) := by
  cases k with
  | array =>
    have hitems : (parse_items rbracket (parse_element (parse_value double fuel)) fuel).run
        (lbracket :: bs) = some (some vs, rest) := h
    -- a bracket is no quote, no digit, and no other bracket
    have hquote : lbracket ≠ quote := by decide
    have hnumber : ¬ (lbracket = minus ∨ isDigit lbracket = true) := by decide
    show (parse_value double (fuel + 1)).run (lbracket :: bs) = _
    rw [parse_value_other (by decide), parse_other, run_bind (peekAt_zero _), if_neg hquote,
      if_neg hnumber, if_pos rfl, parse_array, andThen_some hitems]
    rfl
  | object =>
    have hitems : (parse_items rbrace (parse_member fuel (parse_value double fuel)) fuel).run
        (lbrace :: bs) = some (some vs, rest) := h
    have hquote : lbrace ≠ quote := by decide
    have hnumber : ¬ (lbrace = minus ∨ isDigit lbrace = true) := by decide
    have harray : lbrace ≠ lbracket := by decide
    show (parse_value double (fuel + 1)).run (lbrace :: bs) = _
    rw [parse_value_other (by decide), parse_other, run_bind (peekAt_zero _), if_neg hquote,
      if_neg hnumber, if_neg harray, if_pos rfl, parse_object, andThen_some hitems]
    rfl

theorem close_solid (k : Kind) (rest : CString) : Solid (k.close :: rest) := by
  cases k with
  | array => exact ⟨rbracket, rest, rfl, rfl⟩
  | object => exact ⟨rbrace, rest, rfl, rfl⟩

theorem read_empty {w : CString} (k : Kind) (hw : Ws w) :
    Read double .value (k.opening :: (w ++ [k.close])) := by
  refine ⟨k.node [], fun fuel rest hfuel _ => ?_⟩
  cases fuel with
  | zero => cases hfuel
  | succ fuel =>
    have hassoc : k.opening :: (w ++ [k.close]) ++ rest = k.opening :: (w ++ k.close :: rest) := by
      simp
    rw [hassoc]
    refine parse_container k ?_
    rw [parse_items, run_bind (forward_one _), run_bind (skip_run hw (close_solid k rest)),
      run_bind (peekAt_zero _), if_pos rfl, run_bind (forward_one _)]
    rfl

/-- An item is not taken for the end of its container. -/
theorem item_ne_close {k : Kind} {i : CString} (hi : Json (.item k) i) :
    ∃ c s', i = c :: s' ∧ c ≠ k.close := by
  obtain ⟨c, s', rfl, -, hbracket, hbrace⟩ := hi.head
  refine ⟨c, s', rfl, ?_⟩
  cases k with
  | array => exact hbracket
  | object => exact hbrace

/-- The rest of the items ends what stands in front of it. -/
theorem rest_ends {k : Kind} {r : CString} (hr : Json (.rest k) r) (rest : CString) :
    k.Ends (r ++ rest) := by
  obtain ⟨c, s', rfl, hc⟩ := hr.head
  exact ⟨c, s' ++ rest, rfl, hc⟩

/-- JSON text is not empty. -/
theorem length_pos_of_json {p : Part} {s : CString} (h : Json p s) : 0 < s.length := by
  obtain ⟨c, s', rfl, -⟩ := h.head
  exact Nat.succ_pos _

theorem read_container {w i r : CString} {k : Kind} (hw : Ws w) (hi : Json (.item k) i)
    (hr : Json (.rest k) r) (hread : Read double (.item k) i) (hrest : Read double (.rest k) r) :
    Read double .value (k.opening :: (w ++ (i ++ r))) := by
  obtain ⟨v, hread⟩ := hread
  obtain ⟨vs, hrest⟩ := hrest
  refine ⟨k.node (v :: vs), fun fuel rest hfuel _ => ?_⟩
  cases fuel with
  | zero => cases hfuel
  -- one unit of the bound for each level
  | succ fuel =>
    have hipos := length_pos_of_json hi
    have hrpos := length_pos_of_json hr
    rw [List.length_cons, List.length_append, List.length_append] at hfuel
    have hv := hread fuel (r ++ rest) (by omega) (rest_ends hr rest)
    have hvs := hrest fuel fuel rest (by omega) (by omega)
    -- there is an item, so the closing bracket is not next
    obtain ⟨c, s', rfl, hc⟩ := item_ne_close hi
    rw [List.cons_append, List.append_assoc, List.append_assoc]
    refine parse_container k ?_
    rw [parse_items, run_bind (forward_one _), run_bind (skip_run hw (solid_of_json hi)), bind_run]
    rw [List.cons_append] at hv ⊢
    rw [peekAt_zero, Option.bind_some, if_neg hc, andThen_some hv, andThen_some hvs]
    rfl

/-- A number can end where the rest of the items begins. -/
theorem ends_delimits {k : Kind} {rest : CString} (h : k.Ends rest) : Delimits rest := by
  obtain ⟨c, rest', rfl, rfl | rfl⟩ := h
  · exact ⟨comma, rest', rfl, by decide⟩
  · cases k with
    | array => exact ⟨rbracket, rest', rfl, by decide⟩
    | object => exact ⟨rbrace, rest', rfl, by decide⟩

/-- Nothing is skipped where the rest of the items begins. -/
theorem ends_solid {k : Kind} {rest : CString} (h : k.Ends rest) : Solid rest := by
  obtain ⟨c, rest', rfl, rfl | rfl⟩ := h
  · exact ⟨comma, rest', rfl, rfl⟩
  · exact close_solid k rest'

/-- White space ends a number, and so does what ends it behind the white space. -/
theorem ws_delimits {w rest : CString} (hw : Ws w) (h : Delimits rest) : Delimits (w ++ rest) := by
  cases w with
  | nil => exact h
  | cons c w =>
    refine ⟨c, w ++ rest, rfl, ?_⟩
    rcases hw c List.mem_cons_self with rfl | rfl | rfl | rfl <;> decide

theorem read_element {v w : CString} (hw : Ws w) (hread : Read double .value v) :
    Read double (.item .array) (v ++ w) := by
  obtain ⟨x, hread⟩ := hread
  refine ⟨x, fun fuel rest hfuel hends => ?_⟩
  rw [List.length_append] at hfuel
  have hx := hread fuel (w ++ rest) (by omega) fun _ => ws_delimits hw (ends_delimits hends)
  rw [List.append_assoc]
  show (parse_element (parse_value double fuel)).run _ = _
  rw [parse_element, andThen_some hx, run_bind (skip_run hw (ends_solid hends))]
  rfl

theorem read_member {s w₁ w₂ v w₃ : CString} (hs : StringText s) (h₁ : Ws w₁) (h₂ : Ws w₂)
    (hv : Json .value v) (h₃ : Ws w₃) (hread : Read double .value v) :
    Read double (.item .object) (s ++ (w₁ ++ colon :: (w₂ ++ (v ++ w₃)))) := by
  obtain ⟨name, hname⟩ := parse_string_run hs
  obtain ⟨x, hread⟩ := hread
  refine ⟨named name x, fun fuel rest hfuel hends => ?_⟩
  simp only [List.length_append, List.length_cons] at hfuel
  have hx := hread fuel (w₃ ++ rest) (by omega) fun _ => ws_delimits h₃ (ends_delimits hends)
  have hstring := hname fuel (w₁ ++ colon :: (w₂ ++ (v ++ (w₃ ++ rest)))) (by omega)
  have hcolon : Solid (colon :: (w₂ ++ (v ++ (w₃ ++ rest)))) := ⟨colon, _, rfl, rfl⟩
  have hassoc : s ++ (w₁ ++ colon :: (w₂ ++ (v ++ w₃))) ++ rest =
      s ++ (w₁ ++ colon :: (w₂ ++ (v ++ (w₃ ++ rest)))) := by simp
  rw [hassoc]
  show (parse_member fuel (parse_value double fuel)).run _ = _
  rw [parse_member, andThen_some hstring, run_bind (skip_run h₁ hcolon), run_bind (peekAt_zero _),
    if_neg (by simp), run_bind (forward_one _), run_bind (skip_run h₂ (solid_of_json hv)),
    andThen_some hx, run_bind (skip_run h₃ (ends_solid hends))]
  rfl

theorem read_close (k : Kind) : Read double (.rest k) [k.close] := by
  have hne : k.close ≠ comma := by cases k <;> decide
  refine ⟨[], fun fuel rounds rest _ hrounds => ?_⟩
  cases rounds with
  | zero => cases hrounds
  | succ rounds =>
    rw [parse_rest, List.cons_append, run_bind (peekAt_zero _), if_neg hne, if_pos rfl,
      run_bind (forward_one _)]
    rfl

/-- A comma and the items behind it are read. -/
theorem read_next {w i r : CString} {k : Kind} (hw : Ws w) (hi : Json (.item k) i)
    (hr : Json (.rest k) r) (hread : Read double (.item k) i) (hrest : Read double (.rest k) r) :
    Read double (.rest k) (comma :: (w ++ (i ++ r))) := by
  obtain ⟨v, hread⟩ := hread
  obtain ⟨vs, hrest⟩ := hrest
  refine ⟨v :: vs, fun fuel rounds rest hfuel hrounds => ?_⟩
  rw [List.length_cons, List.length_append, List.length_append] at hfuel hrounds
  cases rounds with
  | zero => cases hrounds
  | succ rounds =>
    have hv := hread fuel (r ++ rest) (by omega) (rest_ends hr rest)
    have hvs := hrest fuel rounds rest (by omega) (by omega)
    rw [List.cons_append, List.append_assoc, List.append_assoc, parse_rest,
      run_bind (peekAt_zero _), if_pos rfl, run_bind (forward_one _),
      run_bind (skip_run hw (solid_of_json hi)), andThen_some hv, andThen_some hvs]
    rfl

/-- **Reading.**  The parser reads every text of the grammar. -/
theorem json_read {p : Part} {s : CString} (h : Json p s) : Read double p s := by
  induction h with
  | null => exact read_null
  | false => exact read_false
  | true => exact read_true
  | number h => exact read_number h
  | string h => exact read_string h
  | empty k hw => exact read_empty k hw
  | container hw hi hr ihi ihr => exact read_container hw hi hr ihi ihr
  | element hv hw ih => exact read_element hw ih
  | member hs h₁ h₂ hv h₃ ih => exact read_member hs h₁ h₂ hv h₃ ih
  | close k => exact read_close k
  | next hw hi hr ihi ihr => exact read_next hw hi hr ihi ihr

end Double

end Cjson

end Turnserver
