/-
  MINIFYING JSON (`new_elbs/cJSON.cc`, 583–598).

  `cJSON_Minify` removes white space and comments from a text, in place: it writes behind the pointer at
  which it reads, so that it never reads what it has written.  It copies strings as they are.

  * `Layout`: white space, comments to the end of a line, and comments in between;
  * `minify_meaning`: a JSON text with a layout between its tokens becomes the text without it, which says
    the same, and stays as it is from then on;
  * `minify_print`: of what is printed with formatting remains what is printed without.
-/
import Turnserver.Json.PrintParse

namespace Turnserver

namespace Cjson

open Parsing Cursor Ascii LinkedTree Node

/-! ## The code -/

/-- `*` -/
abbrev star : UInt8 := 42

/-- `/` -/
abbrev slash : UInt8 := 47

/-- `' '`, `'\t'`, `'\r'`, `'\n'` -/
def isWhite (c : UInt8) : Bool := c == 32 || c == 9 || c == 13 || c == 10

/-- `while (*json && !(*json=='*' && json[1]=='/')) json++` -/
def skipComment : Parser UInt8 Unit
  | [] => none
  | c :: bs =>
    if c = 0 then some ((), c :: bs)
    else if c = star ∧ bs = [] then none
    else if c = star ∧ bs.head? = some slash then some ((), c :: bs)
    else skipComment bs

/-- The loop inside a string; a backslash takes the next character with it. -/
def copyQuoted : Parser UInt8 CString
  | [] => none
  | [c] => if c = 0 ∨ c = quote then some ([], [c]) else none
  | c :: d :: bs =>
    if c = 0 ∨ c = quote then some ([], c :: d :: bs)
    else if c = backslash then (copyQuoted bs).map fun r => (c :: d :: r.1, r.2)
    else (copyQuoted (d :: bs)).map fun r => (c :: r.1, r.2)

/-- What is written, without the NUL behind it.  The loop ends within `fuel` rounds. -/
def cJSON_Minify : Nat → Parser UInt8 CString
  | 0 => nothing
  | fuel + 1 => do
    let c ← peekAt 0
    if c = 0 then pure []
    else if isWhite c then do
      forward 1
      cJSON_Minify fuel
    else if c = slash then do
      let d ← peekAt 1
      if d = slash then do
        let _ ← span fun c => c != 0 && c != 10
        cJSON_Minify fuel
      else if d = star then do
        skipComment
        forward 2
        cJSON_Minify fuel
      else do
        forward 1
        let more ← cJSON_Minify fuel
        pure (c :: more)
    else if c = quote then do
      forward 1
      let s ← copyQuoted
      -- the quotation mark, or the NUL
      let e ← peekAt 0
      forward 1
      let more ← cJSON_Minify fuel
      pure (c :: (s ++ e :: more))
    else do
      forward 1
      let more ← cJSON_Minify fuel
      pure (c :: more)

/-! ## What is between the tokens -/

/-- The comments of C and C++, but for block comments that begin with a slash: see `strips_short`. -/
inductive Comment : CString → Prop
  | line {b : CString} (h : ∀ c ∈ b, c ≠ 0 ∧ c ≠ 10) : Comment (slash :: slash :: (b ++ [10]))
  | block {b : CString} (h0 : 0 ∉ b) (h : ¬ [star, slash] <:+: b) (hslash : b.head? ≠ some slash) :
      Comment (slash :: star :: (b ++ [star, slash]))

/-- What may stand between two tokens. -/
inductive Layout : CString → Prop
  | nil : Layout []
  | white {c : UInt8} {w : CString} (hc : c = 32 ∨ c = 9 ∨ c = 10 ∨ c = 13) (hw : Layout w) :
      Layout (c :: w)
  | comment {c w : CString} (hc : Comment c) (hw : Layout w) : Layout (c ++ w)

/-- Blanks are layout. -/
theorem Ws.layout {w : CString} (h : Ws w) : Layout w := by
  induction w with
  | nil => exact .nil
  | cons c w ih => exact .white (h c (by simp)) (ih fun x hx => h x (by simp [hx]))

/-! ## Rounds of the loop -/

/-- Of `s` there remains `s'`, whatever follows. -/
def Strips (s s' : CString) : Prop :=
  ∃ k, k ≤ s.length ∧ ∀ fuel rest out behind, (cJSON_Minify fuel).run rest = some (out, behind) →
    (cJSON_Minify (fuel + k)).run (s ++ rest) = some (s' ++ out, behind)

/-- Of no text nothing is left. -/
theorem Strips.nil : Strips [] [] := ⟨0, Nat.le_refl _, fun _ _ _ _ h => h⟩

/-- Two texts are stripped one after the other. -/
theorem Strips.append {s s' t t' : CString} (hs : Strips s s') (ht : Strips t t') :
    Strips (s ++ t) (s' ++ t') := by
  rcases hs with ⟨k, hk, hs⟩
  rcases ht with ⟨l, hl, ht⟩
  refine ⟨l + k, by rw [List.length_append]; omega, fun fuel rest out behind h => ?_⟩
  have hrun := hs _ _ _ _ (ht fuel rest out behind h)
  rwa [← Nat.add_assoc, List.append_assoc, List.append_assoc]

/-- One round. -/
theorem Strips.one {s s' : CString} (hs : 0 < s.length)
    (h : ∀ fuel rest out behind, (cJSON_Minify fuel).run rest = some (out, behind) →
      (cJSON_Minify (fuel + 1)).run (s ++ rest) = some (s' ++ out, behind)) : Strips s s' :=
  ⟨1, hs, h⟩

theorem strips_white {c : UInt8} (hc : c = 32 ∨ c = 9 ∨ c = 10 ∨ c = 13) : Strips [c] [] := by
  refine .one Nat.one_pos fun fuel rest out behind h => ?_
  have hzero : c ≠ 0 := by rcases hc with rfl | rfl | rfl | rfl <;> decide
  have hwhite : isWhite c = true := by rcases hc with rfl | rfl | rfl | rfl <;> decide
  rw [cJSON_Minify, List.cons_append, run_bind (peekAt_zero _), if_neg hzero, if_pos hwhite,
    run_bind (forward_one _)]
  exact h

/-- Characters of tokens other than strings. -/
def Plain (c : UInt8) : Prop := c ≠ 0 ∧ isWhite c = false ∧ c ≠ slash ∧ c ≠ quote

instance : DecidablePred Plain := fun c =>
  inferInstanceAs (Decidable (c ≠ 0 ∧ isWhite c = false ∧ c ≠ slash ∧ c ≠ quote))

/-- A test on a list of plain characters. -/
theorem plain_of_all {s : CString} (h : (s.all fun c => decide (Plain c)) = true) : ∀ c ∈ s, Plain c :=
  fun c hc => of_decide_eq_true (List.all_eq_true.mp h c hc)

/-- Plain characters are kept. -/
theorem strips_plain {s : CString} (hs : ∀ c ∈ s, Plain c) : Strips s s := by
  induction s with
  | nil => exact .nil
  | cons c s ih =>
    have hone : Strips [c] [c] → Strips ([c] ++ s) ([c] ++ s) :=
      fun h => h.append (ih fun x hx => hs x (by simp [hx]))
    refine hone (.one Nat.one_pos fun fuel rest out behind h => ?_)
    rcases hs c (by simp) with ⟨hzero, hwhite, hslash, hquote⟩
    rw [cJSON_Minify, List.cons_append, run_bind (peekAt_zero _), if_neg hzero, hwhite,
      if_neg Bool.false_ne_true, if_neg hslash, if_neg hquote, run_bind (forward_one _),
      List.nil_append, run_bind h]
    rfl

/-- The search for `*/` passes over a text without it. -/
theorem skipComment_run {b : CString} (h0 : 0 ∉ b) (h : ¬ [star, slash] <:+: b)
    (rest : List UInt8) :
    skipComment.run (b ++ star :: slash :: rest) = some ((), star :: slash :: rest) := by
  induction b with
  | nil => rfl
  | cons c b ih =>
    rw [List.mem_cons, not_or] at h0
    have hnext : ¬ (c = star ∧ (b ++ star :: slash :: rest).head? = some slash) := by
      rintro ⟨rfl, hhead⟩
      cases b with
      | nil => cases hhead
      | cons d b =>
        cases hhead
        exact h ⟨[], b, rfl⟩
    show skipComment (c :: (b ++ star :: slash :: rest)) = _
    rw [skipComment, if_neg (Ne.symm h0.1), if_neg (by simp), if_neg hnext]
    exact ih h0.2 fun hinfix => h (List.infix_cons hinfix)

/-- One round for what is between the slash and the first star and slash behind it, where the opening
    star counts. -/
theorem strips_block {b : CString} (h0 : 0 ∉ b) (h : ¬ [star, slash] <:+: b)
    (hb : (b ++ [star]).head? = some star) : Strips (slash :: (b ++ [star, slash])) [] := by
  refine .one (Nat.succ_pos _) fun fuel rest out behind hrest => ?_
  have hlist : slash :: (b ++ [star, slash]) ++ rest = slash :: b ++ star :: slash :: rest := by simp
  -- the character behind the slash is a star, also if nothing else is in the comment
  have hsecond : (peekAt 1).run (slash :: b ++ star :: slash :: rest) =
      some (star, slash :: b ++ star :: slash :: rest) := by
    cases b with
    | nil => rfl
    | cons c b =>
      cases hb
      rfl
  -- the search begins at the slash, and finds no earlier end
  have hnot : ¬ [star, slash] <:+: slash :: b := by
    rw [List.infix_cons_iff, not_or]
    exact ⟨fun hcut => absurd (List.cons_prefix_cons.mp hcut).1 (by decide), h⟩
  have hzero : 0 ∉ slash :: b := by
    rw [List.mem_cons, not_or]
    exact ⟨by decide, h0⟩
  have hskip := skipComment_run hzero hnot rest
  have hforward : (forward 2).run (star :: slash :: rest) = some ((), rest) :=
    forward_append (w := [star, slash]) rfl
  rw [hlist, cJSON_Minify]
  rw [List.cons_append] at hsecond hskip ⊢
  rw [run_bind (peekAt_zero _), if_neg (by decide), if_neg (by decide), if_pos rfl, run_bind hsecond,
    if_neg (by decide), if_pos rfl, run_bind hskip, run_bind hforward]
  exact hrest

/-- The search for the end begins at the opening slash, so that the opening star can be the closing
    one: here the code takes three characters for a comment, and leaves the rest of it in the text. -/
theorem strips_short : Strips [slash, star, slash] [] := strips_block (b := []) (by simp) (by simp) rfl

example : (cJSON_Minify 20).run (ascii "[1,/*/ x */2]" ++ [0]) = some (ascii "[1,x*/2]", [0]) := by
  decide +kernel

/-- The end of the line takes a round of its own. -/
theorem strips_line {b : CString} (h : ∀ c ∈ b, c ≠ 0 ∧ c ≠ 10) :
    Strips (slash :: slash :: (b ++ [10])) [] := by
  refine ⟨2, by simp, fun fuel rest out behind hrest => ?_⟩
  -- the line is skipped up to its end, which the next round skips as a blank
  have hspan : (span fun c : UInt8 => c != 0 && c != 10).run (slash :: slash :: b ++ 10 :: rest) =
      some (slash :: slash :: b, 10 :: rest) := by
    refine span_run (fun x hx => ?_) (by decide)
    rcases List.mem_cons.mp hx with rfl | hx
    · decide
    · rcases List.mem_cons.mp hx with rfl | hx
      · decide
      · simp [h x hx]
  have hsecond : (peekAt 1).run (slash :: slash :: (b ++ 10 :: rest)) =
      some (slash, slash :: slash :: (b ++ 10 :: rest)) := rfl
  rw [show slash :: slash :: (b ++ [10]) ++ rest = slash :: slash :: (b ++ 10 :: rest) by simp,
    cJSON_Minify, run_bind (peekAt_zero _), if_neg (by decide), if_neg (by decide), if_pos rfl,
    run_bind hsecond, if_pos rfl]
  rw [List.cons_append, List.cons_append] at hspan
  rw [run_bind hspan, cJSON_Minify, run_bind (peekAt_zero _), if_neg (by decide),
    if_pos (by decide), run_bind (forward_one _)]
  exact hrest

theorem strips_layout {w : CString} (h : Layout w) : Strips w [] := by
  induction h with
  | nil => exact .nil
  | white hc _ ih => exact (strips_white hc).append ih
  | @comment c w hc _ ih =>
    have hstrips : Strips c [] := by
      cases hc with
      | line h => exact strips_line h
      | @block b h0 h hslash =>
        refine strips_block (b := star :: b) ?_ ?_ rfl
        · rw [List.mem_cons, not_or]
          exact ⟨by decide, h0⟩
        · rw [List.infix_cons_iff, not_or, List.cons_prefix_cons, not_and]
          refine ⟨fun _ hprefix => ?_, h⟩
          rcases hprefix with ⟨b', rfl⟩
          exact hslash rfl
    exact hstrips.append ih

/-! ## Tokens -/

/-- A plain character inside quotes is copied. -/
theorem copyQuoted_plain {c : UInt8} {s bs behind : CString} (hc : c ≠ 0 ∧ c ≠ quote ∧ c ≠ backslash)
    (h : copyQuoted.run bs = some (s, behind)) :
    copyQuoted.run (c :: bs) = some (c :: s, behind) := by
  cases bs with
  | nil => cases h
  | cons d bs =>
    show copyQuoted (c :: d :: bs) = _
    rw [copyQuoted, if_neg (not_or.mpr ⟨hc.1, hc.2.1⟩), if_neg hc.2.2,
      show copyQuoted (d :: bs) = some (s, behind) from h]
    rfl

/-- An escaped character inside quotes is copied with its backslash. -/
theorem copyQuoted_escape {c : UInt8} {s bs behind : CString}
    (h : copyQuoted.run bs = some (s, behind)) :
    copyQuoted.run (backslash :: c :: bs) = some (backslash :: c :: s, behind) := by
  show copyQuoted (backslash :: c :: bs) = _
  rw [copyQuoted, if_neg (by decide), if_pos rfl, show copyQuoted bs = some (s, behind) from h]
  rfl

/-- A hexadecimal digit inside quotes is a plain character. -/
theorem isHex_quoted {c : UInt8} (h : IsHex c) : c ≠ 0 ∧ c ≠ quote ∧ c ≠ backslash :=
  ⟨(isHex_plain h).1.2, (isHex_plain h).1.1, (isHex_plain h).2⟩

/-- The loop stops at the quotation mark behind the characters. -/
theorem copyQuoted_run {s : CString} (hs : CharsText s) (rest : List UInt8) :
    copyQuoted.run (s ++ quote :: rest) = some (s, quote :: rest) := by
  induction hs with
  | nil => cases rest <;> rfl
  | cons hc _ ih =>
    cases hc with
    | plain h =>
      refine copyQuoted_plain ⟨?_, h.2⟩ ih
      rintro rfl
      exact absurd h.1 (by decide)
    | escape h => exact copyQuoted_escape ih
    | unicode ha hb hc hd =>
      exact copyQuoted_escape (copyQuoted_plain (isHex_quoted ha) (copyQuoted_plain (isHex_quoted hb)
        (copyQuoted_plain (isHex_quoted hc) (copyQuoted_plain (isHex_quoted hd) ih))))

theorem strips_string {s : CString} (hs : StringText s) : Strips s s := by
  cases hs with
  | @quoted s h =>
    refine .one (Nat.succ_pos _) fun fuel rest out behind hrest => ?_
    rw [show quote :: (s ++ [quote]) ++ rest = quote :: (s ++ quote :: rest) by simp, cJSON_Minify,
      run_bind (peekAt_zero _), if_neg (by decide), if_neg (by decide), if_neg (by decide), if_pos rfl,
      run_bind (forward_one _), run_bind (copyQuoted_run h rest), run_bind (peekAt_zero _),
      run_bind (forward_one _), run_bind hrest]
    simp

/-- A digit is kept by `cJSON_Minify`. -/
theorem digit_plain {c : UInt8} (h : isDigit c = true) : Plain c := by
  rw [isDigit, Bool.and_eq_true, decide_eq_true_eq, decide_eq_true_eq] at h
  have hlow : 48 ≤ c.toNat := UInt8.le_iff_toNat_le.mp h.1
  refine ⟨?_, ?_, ?_, ?_⟩
  · rintro rfl
    exact absurd hlow (by decide)
  · rw [Bool.eq_false_iff, isWhite]
    intro hwhite
    simp at hwhite
    rcases hwhite with ((rfl | rfl) | rfl) | rfl <;> exact absurd hlow (by decide)
  · rintro rfl
    exact absurd hlow (by decide)
  · rintro rfl
    exact absurd hlow (by decide)

/-- Digits are kept. -/
theorem digits_plain {ds : CString} (h : AllDigits ds) : ∀ c ∈ ds, Plain c :=
  fun c hc => digit_plain (h c hc)

theorem exponent_plain {e : CString} (h : ExponentText e) : ∀ c ∈ e, Plain c := by
  intro c hc
  cases h with
  | none => cases hc
  | @digits e d s ds he hs hds =>
    rw [List.mem_cons, List.mem_append] at hc
    rcases hc with rfl | hc | hc
    · rcases he with rfl | rfl <;> decide
    · cases hs with
      | none => cases hc
      | plus | minus =>
        rw [List.mem_singleton.mp hc]
        decide
    · exact digits_plain hds c hc

theorem magnitude_plain {i f e : CString} (hi : IntText i) (hf : FractionText f)
    (he : ExponentText e) : ∀ c ∈ i ++ (f ++ e), Plain c := by
  intro c hc
  rw [List.mem_append, List.mem_append] at hc
  -- in the integer part, in the fraction or in the exponent
  rcases hc with hc | hc | hc
  · cases hi with
    | zero =>
      rw [List.mem_singleton.mp hc]
      decide
    | @digits d ds hd hds =>
      rcases List.mem_cons.mp hc with rfl | hc
      · refine digit_plain ?_
        have h0 : 48 ≤ c := UInt8.le_trans (by decide) hd.1
        simp [isDigit, h0, hd.2]
      · exact digits_plain hds c hc
  · cases hf with
    | none => cases hc
    | digits hds =>
      rcases List.mem_cons.mp hc with rfl | hc
      · decide
      · exact digits_plain hds c hc
  · exact exponent_plain he c hc

theorem strips_number {s : CString} (hs : NumberText s) : Strips s s := by
  refine strips_plain fun c hc => ?_
  cases hs with
  | positive hi hf he => exact magnitude_plain hi hf he c hc
  | negative hi hf he =>
    rcases List.mem_cons.mp hc with rfl | hc
    · decide
    · exact magnitude_plain hi hf he c hc

theorem strips_one {c : UInt8} (h : Plain c) : Strips [c] [c] :=
  strips_plain fun x hx => by rwa [List.mem_singleton.mp hx]

theorem opening_plain (k : Kind) : Plain k.opening := by cases k <;> decide

theorem close_plain (k : Kind) : Plain k.close := by cases k <;> decide

/-! ## Texts -/

variable {double : Numeral → Rat}

/-- Of `s` there remains `s'`, which is not longer and of which everything remains. -/
structure Packs (s s' : CString) : Prop where
  strips : Strips s s'
  again : Strips s' s'
  le : s'.length ≤ s.length

/-- A text that is kept packs to itself. -/
theorem Packs.same {s : CString} (h : Strips s s) : Packs s s := ⟨h, h, Nat.le_refl _⟩

/-- Two texts are packed one after the other. -/
theorem Packs.append {s s' t t' : CString} (hs : Packs s s') (ht : Packs t t') :
    Packs (s ++ t) (s' ++ t') := by
  refine ⟨hs.strips.append ht.strips, hs.again.append ht.again, ?_⟩
  rw [List.length_append, List.length_append]
  exact Nat.add_le_add hs.le ht.le

/-- Layout packs to nothing. -/
theorem Packs.layout {w : CString} (h : Layout w) : Packs w [] :=
  ⟨strips_layout h, .nil, Nat.zero_le _⟩

theorem packs_token {c : UInt8} (h : Plain c) {s s' : CString} (hs : Packs s s') :
    Packs (c :: s) (c :: s') := Packs.append (s := [c]) (.same (strips_one h)) hs

/-- Without its layout a text says the same. -/
theorem packs_meaning {p : Part} {s : CString} {vs : List Value} (h : Says double Layout p s vs) :
    ∃ t, Packs s t ∧ Says double Tight p t vs := by
  -- induction on what the text says: layout is dropped between the tokens
  induction h with
  | null => exact ⟨_, .same (strips_plain (plain_of_all (by decide))), .null⟩
  | false => exact ⟨_, .same (strips_plain (plain_of_all (by decide))), .false⟩
  | true => exact ⟨_, .same (strips_plain (plain_of_all (by decide))), .true⟩
  | number hs hn => exact ⟨_, .same (strips_number hs), .number hs hn⟩
  | string hs hstr => exact ⟨_, .same (strips_string hs), .string hs hstr⟩
  | empty k hw =>
    exact ⟨_, packs_token (opening_plain k)
      ((Packs.layout hw).append (.same (strips_one (close_plain k)))), .empty k rfl⟩
  | @container w i r k v vs hw _ _ ihi ihr =>
    rcases ihi with ⟨i', hi, hi'⟩
    rcases ihr with ⟨r', hr, hr'⟩
    exact ⟨_, packs_token (opening_plain k) ((Packs.layout hw).append (hi.append hr)),
      .container rfl hi' hr'⟩
  | element _ hw ih =>
    rcases ih with ⟨s', hs, hs'⟩
    exact ⟨_, hs.append (.layout hw), .element hs' rfl⟩
  -- the colon stays, the blanks around it go
  | member hs hname h₁ h₂ _ h₃ ih =>
    rcases ih with ⟨t', ht, ht'⟩
    exact ⟨_, (Packs.same (strips_string hs)).append ((Packs.layout h₁).append
      (packs_token (c := colon) (by decide) ((Packs.layout h₂).append (ht.append (.layout h₃))))),
      .member hs hname rfl rfl ht' rfl⟩
  | close k => exact ⟨_, .same (strips_one (close_plain k)), .close k⟩
  | next hw _ _ ihi ihr =>
    rcases ihi with ⟨i', hi, hi'⟩
    rcases ihr with ⟨r', hr, hr'⟩
    exact ⟨_, packs_token (by decide) ((Packs.layout hw).append (hi.append hr)), .next rfl hi' hr'⟩

/-- The whole loop, up to the NUL. -/
theorem Strips.run {s s' : CString} (h : Strips s s') (behind : List UInt8) {fuel : Nat}
    (hfuel : s.length < fuel) :
    (cJSON_Minify fuel).run (s ++ 0 :: behind) = some (s', 0 :: behind) := by
  rcases h with ⟨k, hk, hrun⟩
  rcases Nat.exists_eq_add_of_lt (Nat.lt_of_le_of_lt hk hfuel) with ⟨n, rfl⟩
  have hend : (cJSON_Minify (n + 1)).run (0 :: behind) = some ([], 0 :: behind) := rfl
  have hall := hrun _ _ _ _ hend
  rw [List.append_nil] at hall
  rwa [show k + n + 1 = n + 1 + k by omega]

/-- **Minifying a text.**  A text with white space and comments between its tokens becomes, in one pass
    and in no more room, a text without them, of which the parser makes the value of the first.  A
    second pass changes nothing. -/
theorem minify_meaning {before s after : CString} {v : Value} (hbefore : Layout before)
    (h : Says double Layout .value s [v]) (hafter : Layout after) :
    ∃ t, t.length ≤ (before ++ (s ++ after)).length ∧
      ∀ behind fuel, (before ++ (s ++ after)).length < fuel →
        (cJSON_Minify fuel).run (before ++ (s ++ after) ++ 0 :: behind) = some (t, 0 :: behind) ∧
        (cJSON_Minify fuel).run (t ++ 0 :: behind) = some (t, 0 :: behind) ∧
        cJSON_Parse double fuel (t ++ 0 :: behind) = some (some v) := by
  rcases packs_meaning h with ⟨t, hpacks, hspoken⟩
  have hall : Packs (before ++ (s ++ after)) t := by
    have happend := (Packs.layout hbefore).append (hpacks.append (.layout hafter))
    rwa [List.nil_append, List.append_nil] at happend
  refine ⟨t, hall.le, fun behind fuel hfuel => ⟨hall.strips.run behind hfuel, ?_, ?_⟩⟩
  · exact hall.again.run behind (Nat.lt_of_le_of_lt hall.le hfuel)
  · exact says_parse ws_nil (hspoken.mono fun _ => Tight.ws) ws_nil behind
      (Nat.lt_of_le_of_lt hall.le hfuel)

/-- A string with what would be a comment elsewhere. -/
theorem minify_meaning_sample :
    ∃ t, t.length ≤ 16 ∧ ∀ behind fuel, 16 < fuel →
      (cJSON_Minify fuel).run (ascii "//a\n[ \"/*\"/*b*/]" ++ 0 :: behind) = some (t, 0 :: behind) ∧
      (cJSON_Minify fuel).run (t ++ 0 :: behind) = some (t, 0 :: behind) ∧
      cJSON_Parse (fun _ => 0) fuel (t ++ 0 :: behind) =
        some (some (Kind.array.node [createString [slash, star]])) := by
  have hline : Layout (slash :: slash :: ([97] ++ [10]) ++ []) := .comment (.line (by simp)) .nil
  have hblock : Layout (slash :: star :: ([98] ++ [star, slash]) ++ []) :=
    .comment (.block (by decide) (by decide) (by decide)) .nil
  have hstring : Says (fun _ => 0) Layout .value (print_string_ptr (some [slash, star]))
      [createString [slash, star]] :=
    .string (print_string_text rfl) (spells_print (by decide))
  have htext : ascii "//a\n[ \"/*\"/*b*/]" = slash :: slash :: ([97] ++ [10]) ++ [] ++
      (lbracket :: ([32] ++ ((print_string_ptr (some [slash, star]) ++
        (slash :: star :: ([98] ++ [star, slash]) ++ [])) ++ [rbracket])) ++ []) := by decide
  rw [htext]
  exact minify_meaning hline (.container (k := .array) (.white (c := 32) (.inl rfl) .nil)
    (.element hstring hblock) (.close .array)) .nil

/-! ## What was printed -/

section Print

variable {S : Sprintf} {fmt : Bool}

/-- A token in front of a text is kept, whatever is stripped behind it. -/
theorem strips_token {c : UInt8} (h : Plain c) {s s' : CString} (hs : Strips s s') :
    Strips (c :: s) (c :: s') := (strips_one h).append hs

theorem strips_tabs (depth depth' : Nat) : Strips (tabs fmt depth) (tabs false depth') :=
  strips_layout (tabs_ws fmt depth).layout

theorem strips_newline : Strips (newline fmt) (newline false) := strips_layout (newline_ws fmt).layout

theorem strips_space {c : UInt8} (hc : c = 32 ∨ c = 9 ∨ c = 10 ∨ c = 13) :
    Strips (if fmt then [c] else []) (if false then [c] else []) := strips_layout (ws_ite fmt hc).layout

/-- A comma is kept where entries follow. -/
theorem strips_comma (vs : List Value) {w w' : CString} (hw : Strips w w') :
    Strips (if vs.isEmpty then [] else comma :: w) (if vs.isEmpty then [] else comma :: w') := by
  split
  · exact .nil
  · exact strips_token (by decide) hw

/-- Formatted elements are stripped to the unformatted ones. -/
theorem strips_entries {depth depth' : Nat} {vs : List Value}
    (h : ∀ v ∈ vs, Strips (print_value S fmt (depth + 1) v) (print_value S false (depth' + 1) v)) :
    Strips (print_entries S fmt depth vs) (print_entries S false depth' vs) := by
  induction vs with
  | nil => exact .nil
  | cons v vs ih =>
    rw [print_entries, print_entries]
    exact (h v (by simp)).append ((strips_comma vs (strips_space (.inl rfl))).append
      (ih fun v' hv' => h v' (by simp [hv'])))

/-- Of a string that is not there nothing is printed. -/
theorem strips_print_string (s : Option CString) :
    Strips (print_string_ptr s) (print_string_ptr s) := by
  cases s with
  | none => exact .nil
  | some s => exact strips_string (print_string_text rfl)

/-- Formatted members are stripped to the unformatted ones. -/
theorem strips_members {depth depth' : Nat} {vs : List Value}
    (h : ∀ v ∈ vs, Strips (print_value S fmt (depth + 1) v) (print_value S false (depth' + 1) v)) :
    Strips (print_members S fmt depth vs) (print_members S false depth' vs) := by
  induction vs with
  | nil => exact .nil
  | cons v vs ih =>
    rw [print_members, print_members]
    have hname := strips_print_string v.item.string
    have hvs := ih fun v' hv' => h v' (by simp [hv'])
    exact (strips_tabs _ _).append (hname.append (strips_token (by decide)
      ((strips_space (.inr (.inl rfl))).append ((h v (by simp)).append
        ((strips_comma vs .nil).append (strips_newline.append hvs))))))

mutual

/-- Formatted text is stripped to unformatted text, at any depth. -/
theorem strips_print : (v : Value) → ∀ depth depth',
    Strips (print_value S fmt depth v) (print_value S false depth' v)
  | .mk _ i c, depth, depth' => by
    have hc := strips_print_all c (depth + 1) (depth' + 1)
    rw [print_value, print_value]
    cases ht : i.type with
    | NULL => exact strips_plain (s := ascii "null") (plain_of_all (by decide))
    | False => exact strips_plain (s := ascii "false") (plain_of_all (by decide))
    | True => exact strips_plain (s := ascii "true") (plain_of_all (by decide))
    | Number => exact strips_number (print_number_text S i)
    | String => exact strips_print_string i.valuestring
    | Array => exact strips_token (by decide) ((strips_entries hc).append (strips_one (by decide)))
    | Object =>
      show Strips (if c.isEmpty then _ else _) (if c.isEmpty then _ else _)
      split
      · exact strips_token (by decide) ((strips_newline.append (strips_tabs _ _)).append
          (strips_one (by decide)))
      · exact strips_token (by decide) (strips_newline.append
          ((strips_members hc).append ((strips_tabs _ _).append (strips_one (by decide)))))

/-- The same for a list of values. -/
theorem strips_print_all : (vs : List Value) → ∀ depth depth', ∀ v ∈ vs,
    Strips (print_value S fmt depth v) (print_value S false depth' v)
  | [], _, _ => fun _ hv => nomatch hv
  | v :: vs, depth, depth' => by
    have hv := strips_print v depth depth'
    have hvs := strips_print_all vs depth depth'
    intro v' hv'
    rcases List.mem_cons.mp hv' with rfl | hv'
    · exact hv
    · exact hvs v' hv'

end

/-- **Minifying what was printed** leaves what `cJSON_PrintUnformatted` prints. -/
theorem minify_print (v : Value) (behind : List UInt8) {fuel : Nat}
    (hfuel : (print_value S fmt 0 v).length < fuel) :
    (cJSON_Minify fuel).run (print_value S fmt 0 v ++ 0 :: behind) =
      some (print_value S false 0 v, 0 :: behind) :=
  (strips_print v 0 0).run behind hfuel

theorem minify_print_sample :
    (cJSON_Minify 40).run (cJSON_Print .zeros sampleObject ++ [0]) =
      some (print_value .zeros false 0 sampleObject, [0]) := by
  show (cJSON_Minify 40).run (print_value .zeros true 0 sampleObject ++ [0]) = _
  exact minify_print sampleObject [] (by decide)

end Print

end Cjson

end Turnserver
