/-
  CURSORS — reading forward through memory of which the end is known.

  A program that reads through a pointer is a `Parser`: its list is the memory from the pointer to the
  end of the object, and it fails where it would access memory behind that end.

  * `peekAt`, `forward`, `span`, `startsWith`, `accept`, `lookahead` are what such programs are made of;
    `andThen` goes on where the program before it has not given up.
  * `Stable p` — a longer memory changes nothing for a program that did not need it, and the pointer does
    not move back.  A stable program that stops at the end of a text cannot get by with less of it
    (`Stable.rest_eq`).
  * `Ensures p Q` — whatever the program returns has the property `Q`; `Within n p Q` — so it has on a
    memory of no more than `n` symbols.
-/
import Turnserver.Lib.Parser

namespace Cursor

open Parsing

variable {σ α β γ : Type}

/-! ## Programs -/

/-- An access to memory that is not there. -/
def nothing : Parser σ α := fun _ => none

/-- `value[i]` -/
def peekAt (i : Nat) : Parser σ σ := fun bs => bs[i]?.map fun c => (c, bs)

/-- `value += n` -/
def forward (n : Nat) : Parser σ Unit := fun bs =>
  if n ≤ bs.length then some ((), bs.drop n) else none

/-- What a program would return, without moving the pointer. -/
def lookahead (p : Parser σ α) : Parser σ α := fun bs => (p.run bs).map fun r => (r.1, bs)

/-- `while (f(*value)) value++`: what was passed over. -/
def span (f : σ → Bool) : Parser σ (List σ)
  | [] => none
  | c :: bs => if f c then (span f bs).map fun r => (c :: r.1, r.2) else some ([], c :: bs)

/-- `strncmp(value, lit, strlen(lit)) == 0`; the comparison ends at the first difference. -/
def startsFrom [DecidableEq σ] : List σ → List σ → Option Bool
  | [], _ => some true
  | _ :: _, [] => none
  | l :: lit, c :: bs => if c = l then startsFrom lit bs else some false

/-- Whether the text begins with these characters; nothing is taken. -/
def startsWith [DecidableEq σ] (lit : List σ) : Parser σ Bool := fun bs =>
  (startsFrom lit bs).map fun b => (b, bs)

/-- `if (*value == c) value++`: whether it was. -/
def accept [DecidableEq σ] (c : σ) : Parser σ Bool := do
  let d ← peekAt 0
  if d = c then do
    forward 1
    pure true
  else pure false

/-- The next program runs unless this one gives up. -/
def andThen (p : Parser σ (Option α)) (f : α → Parser σ (Option β)) : Parser σ (Option β) := do
  let r ← p
  match r with
  | none => pure none
  | some a => f a

/-! ## What they do -/

section Run

variable {bs rest : List σ}

/-- A program after one that has returned. -/
theorem run_bind {p : Parser σ α} {f : α → Parser σ β} {a : α} (h : p.run bs = some (a, rest)) :
    (p >>= f).run bs = (f a).run rest := by
  rw [bind_run, h, Option.bind_some]

/-- A bind that returns has run both programs. -/
theorem exists_of_bind {p : Parser σ α} {f : α → Parser σ β} {b : β}
    (h : (p >>= f).run bs = some (b, rest)) :
    ∃ a mid, p.run bs = some (a, mid) ∧ (f a).run mid = some (b, rest) := by
  rw [bind_run] at h
  obtain ⟨⟨a, mid⟩, hrun, hf⟩ := Option.bind_eq_some_iff.mp h
  exact ⟨a, mid, hrun, hf⟩

theorem peekAt_zero (c : σ) : (peekAt 0).run (c :: bs) = some (c, c :: bs) := rfl

/-- A step over as many characters as there are. -/
theorem forward_append {w : List σ} {n : Nat} (hn : w.length = n) :
    (forward n).run (w ++ rest) = some ((), rest) := by
  subst hn
  show (if _ then _ else _) = _
  rw [if_pos (by rw [List.length_append]; omega), List.drop_left]

theorem forward_one (c : σ) : (forward 1).run (c :: rest) = some ((), rest) :=
  forward_append (w := [c]) rfl

/-- The loop passes over what satisfies its condition and stops at the first symbol that does not. -/
theorem span_run {f : σ → Bool} {w : List σ} {c : σ} (hw : ∀ x ∈ w, f x = true) (hc : f c = false) :
    (span f).run (w ++ c :: rest) = some (w, c :: rest) := by
  induction w with
  | nil =>
    show (if _ then _ else _) = _
    rw [hc]
    rfl
  | cons x w ih =>
    have hrec : span f (w ++ c :: rest) = some (w, c :: rest) :=
      ih fun y hy => hw y (List.mem_cons_of_mem x hy)
    show span f (x :: (w ++ c :: rest)) = _
    rw [span, if_pos (hw x List.mem_cons_self), hrec]
    rfl

/-- A text begins with its beginning. -/
theorem startsWith_self [DecidableEq σ] (lit : List σ) :
    (startsWith lit).run (lit ++ rest) = some (true, lit ++ rest) := by
  have h : startsFrom lit (lit ++ rest) = some true := by
    induction lit with
    | nil => rfl
    | cons l lit ih => rw [List.cons_append, startsFrom, if_pos rfl, ih]
  show (startsFrom _ _).map _ = _
  rw [h]
  rfl

theorem startsWith_ne [DecidableEq σ] {l c : σ} (h : c ≠ l) (lit : List σ) :
    (startsWith (l :: lit)).run (c :: bs) = some (false, c :: bs) := by
  show (startsFrom _ _).map _ = _
  rw [startsFrom, if_neg h]
  rfl

theorem accept_self [DecidableEq σ] (c : σ) : (accept c).run (c :: rest) = some (true, rest) := by
  rw [accept, run_bind (peekAt_zero _), if_pos rfl, run_bind (forward_one _)]
  rfl

theorem accept_ne [DecidableEq σ] {c d : σ} (h : d ≠ c) :
    (accept c).run (d :: bs) = some (false, d :: bs) := by
  rw [accept, run_bind (peekAt_zero _), if_neg h]
  rfl

/-- What follows a success. -/
theorem andThen_some {p : Parser σ (Option α)} {f : α → Parser σ (Option β)} {a : α}
    (h : p.run bs = some (some a, rest)) : (andThen p f).run bs = (f a).run rest := by
  rw [andThen, run_bind h]

end Run

/-! ## Stability -/

/-- What the program does on a memory, it does on every longer one, and the pointer only moves forward. -/
structure Stable (p : Parser σ α) : Prop where
  longer : ∀ bs a rest, p.run bs = some (a, rest) → ∀ more, p.run (bs ++ more) = some (a, rest ++ more)
  length_le : ∀ bs a rest, p.run bs = some (a, rest) → rest.length ≤ bs.length

namespace Stable

theorem pure (a : α) : Stable (Pure.pure a : Parser σ α) where
  longer := by
    intro bs b rest h more
    cases h
    rfl
  length_le := by
    intro bs b rest h
    cases h
    exact Nat.le_refl _

theorem nothing : Stable (Cursor.nothing : Parser σ α) where
  longer := fun _ _ _ h => nomatch h
  length_le := fun _ _ _ h => nomatch h

/-- In a row, what is stable stays stable. -/
theorem bind {p : Parser σ α} {f : α → Parser σ β} (hp : Stable p) (hf : ∀ a, Stable (f a)) :
    Stable (p >>= f) where
  longer := by
    intro bs b rest h more
    obtain ⟨a, mid, hrun, h⟩ := exists_of_bind h
    rw [run_bind (hp.longer _ _ _ hrun more)]
    exact (hf a).longer _ _ _ h more
  length_le := by
    intro bs b rest h
    obtain ⟨a, mid, hrun, h⟩ := exists_of_bind h
    exact Nat.le_trans ((hf a).length_le _ _ _ h) (hp.length_le _ _ _ hrun)

/-- Both branches of a condition are stable. -/
theorem ite {c : Prop} [Decidable c] {p q : Parser σ α} (hp : Stable p) (hq : Stable q) :
    Stable (if c then p else q) := by
  split
  · exact hp
  · exact hq

/-- A stable parser after a stable one that may fail. -/
theorem andThen {p : Parser σ (Option α)} {f : α → Parser σ (Option β)} (hp : Stable p)
    (hf : ∀ a, Stable (f a)) : Stable (andThen p f) := by
  refine hp.bind fun r => ?_
  cases r with
  | none => exact .pure none
  | some a => exact hf a

/-- Looking at a character needs the characters up to it. -/
theorem peekAt (i : Nat) : Stable (peekAt i : Parser σ σ) := by
  have hpeek : ∀ bs a rest, (Cursor.peekAt i : Parser σ σ).run bs = some (a, rest) →
      bs[i]? = some a ∧ rest = bs := by
    intro bs a rest h
    have hmap : bs[i]?.map (fun c => (c, bs)) = some (a, rest) := h
    obtain ⟨c, hc, heq⟩ := Option.map_eq_some_iff.mp hmap
    cases heq
    exact ⟨hc, rfl⟩
  constructor
  · intro bs a rest h more
    obtain ⟨ha, rfl⟩ := hpeek bs a rest h
    obtain ⟨hi, -⟩ := List.getElem?_eq_some_iff.mp ha
    show (rest ++ more)[i]?.map _ = _
    rw [List.getElem?_append_left hi, ha]
    rfl
  · intro bs a rest h
    obtain ⟨-, rfl⟩ := hpeek bs a rest h
    exact Nat.le_refl _

/-- A step forward is a step over so many characters. -/
theorem forward_spec {n : Nat} {bs rest : List σ} {a : Unit}
    (h : (Cursor.forward n).run bs = some (a, rest)) : n ≤ bs.length ∧ rest = bs.drop n := by
  have hite : (if n ≤ bs.length then some ((), bs.drop n) else none) = some (a, rest) := h
  split at hite
  · next hn =>
    cases hite
    exact ⟨hn, rfl⟩
  · cases hite

/-- So it does not depend on what comes after them. -/
theorem forward (n : Nat) : Stable (Cursor.forward n : Parser σ Unit) where
  longer := by
    intro bs a rest h more
    obtain ⟨hn, rfl⟩ := forward_spec h
    show (if _ then _ else _) = _
    rw [if_pos (by rw [List.length_append]; omega), List.drop_append_of_le_length hn]
  length_le := by
    intro bs a rest h
    obtain ⟨-, rfl⟩ := forward_spec h
    rw [List.length_drop]
    exact Nat.sub_le _ _

/-- Looking ahead is stable where what is looked for is. -/
theorem lookahead {p : Parser σ α} (hp : Stable p) : Stable (lookahead p) := by
  have hlook : ∀ bs a rest, (Cursor.lookahead p).run bs = some (a, rest) →
      ∃ mid, p.run bs = some (a, mid) ∧ rest = bs := by
    intro bs a rest h
    have hmap : (p.run bs).map (fun r => (r.1, bs)) = some (a, rest) := h
    obtain ⟨⟨b, mid⟩, hrun, heq⟩ := Option.map_eq_some_iff.mp hmap
    cases heq
    exact ⟨mid, hrun, rfl⟩
  constructor
  · intro bs a rest h more
    obtain ⟨mid, hrun, rfl⟩ := hlook bs a rest h
    show (p.run (rest ++ more)).map _ = _
    rw [hp.longer _ _ _ hrun more]
    rfl
  · intro bs a rest h
    obtain ⟨-, -, rfl⟩ := hlook bs a rest h
    exact Nat.le_refl _

/-- A run of characters ends at a character that is there. -/
theorem span (f : σ → Bool) : Stable (span f) where
  longer := by
    intro bs
    induction bs with
    | nil => exact fun _ _ h => nomatch h
    -- one character more is taken on both memories, or neither goes on
    | cons c bs ih =>
      intro a rest h more
      have hspan : Cursor.span f (c :: bs) = some (a, rest) := h
      show Cursor.span f (c :: (bs ++ more)) = _
      rw [Cursor.span] at hspan ⊢
      split at hspan
      · next hc =>
        obtain ⟨⟨w, mid⟩, hrun, heq⟩ := Option.map_eq_some_iff.mp hspan
        cases heq
        have hrec : Cursor.span f (bs ++ more) = some (w, mid ++ more) := ih _ _ hrun more
        rw [if_pos hc, hrec]
        rfl
      · next hc =>
        cases hspan
        rw [if_neg hc]
        rfl
  length_le := by
    -- each character taken leaves one less
    intro bs
    induction bs with
    | nil => exact fun _ _ h => nomatch h
    | cons c bs ih =>
      intro a rest h
      have hspan : Cursor.span f (c :: bs) = some (a, rest) := h
      rw [Cursor.span] at hspan
      split at hspan
      · obtain ⟨⟨w, mid⟩, hrun, heq⟩ := Option.map_eq_some_iff.mp hspan
        cases heq
        exact Nat.le_succ_of_le (ih _ _ hrun)
      · cases hspan
        exact Nat.le_refl _

/-- A comparison that has come to an end comes to the same end in a longer text. -/
theorem startsFrom [DecidableEq σ] {lit bs : List σ} {b : Bool}
    (h : startsFrom lit bs = some b) (more : List σ) :
    Cursor.startsFrom lit (bs ++ more) = some b := by
  induction lit generalizing bs with
  | nil => exact h
  | cons l lit ih =>
    cases bs with
    | nil => cases h
    | cons c bs =>
      rw [Cursor.startsFrom] at h
      rw [List.cons_append, Cursor.startsFrom]
      split at h
      · next heq => rw [if_pos heq, ih h]
      · next hne => rw [if_neg hne, h]

theorem startsWith [DecidableEq σ] (lit : List σ) : Stable (startsWith lit) := by
  have hstarts : ∀ bs a rest, (Cursor.startsWith lit).run bs = some (a, rest) →
      Cursor.startsFrom lit bs = some a ∧ rest = bs := by
    intro bs a rest h
    have hmap : (Cursor.startsFrom lit bs).map (fun b => (b, bs)) = some (a, rest) := h
    obtain ⟨b, hb, heq⟩ := Option.map_eq_some_iff.mp hmap
    cases heq
    exact ⟨hb, rfl⟩
  constructor
  · intro bs a rest h more
    obtain ⟨ha, rfl⟩ := hstarts bs a rest h
    show (Cursor.startsFrom lit (rest ++ more)).map _ = _
    rw [startsFrom ha more]
    rfl
  · intro bs a rest h
    obtain ⟨-, rfl⟩ := hstarts bs a rest h
    exact Nat.le_refl _

theorem accept [DecidableEq σ] (c : σ) : Stable (accept c) :=
  (peekAt 0).bind fun _ => .ite ((forward 1).bind fun _ => .pure true) (.pure false)

end Stable

/-! ## What is returned -/

/-- Whatever the program returns has the property. -/
def Ensures (p : Parser σ α) (Q : α → Prop) : Prop := ∀ bs a rest, p.run bs = some (a, rest) → Q a

namespace Ensures

variable {Q : α → Prop}

/-- A result that has the property. -/
theorem pure {a : α} (h : Q a) : Ensures (Pure.pure a : Parser σ α) Q := by
  intro bs b rest hrun
  cases hrun
  exact h

theorem nothing : Ensures (Cursor.nothing : Parser σ α) Q := fun _ _ _ h => nomatch h

/-- What the second ensures for all that the first ensures. -/
theorem bind {p : Parser σ β} {R : β → Prop} {f : β → Parser σ α} (hp : Ensures p R)
    (hf : ∀ b, R b → Ensures (f b) Q) : Ensures (p >>= f) Q := by
  intro bs a rest h
  obtain ⟨b, mid, hrun, h⟩ := exists_of_bind h
  exact hf b (hp _ _ _ hrun) _ _ _ h

/-- Whatever the first program does. -/
theorem bind_any {p : Parser σ β} {f : β → Parser σ α} (hf : ∀ b, Ensures (f b) Q) :
    Ensures (p >>= f) Q := bind (R := fun _ => True) (fun _ _ _ _ => trivial) fun b _ => hf b

/-- Both branches ensure it. -/
theorem ite {c : Prop} [Decidable c] {p q : Parser σ α} (hp : Ensures p Q) (hq : Ensures q Q) :
    Ensures (if c then p else q) Q := by
  split
  · exact hp
  · exact hq

/-- The property of what is returned, if the program has not given up. -/
def OfSome (Q : α → Prop) (r : Option α) : Prop := ∀ a, r = some a → Q a

theorem ofSome_none : OfSome Q none := fun _ h => nomatch h

theorem ofSome_some {a : α} (h : Q a) : OfSome Q (some a) := by
  intro b hb
  cases hb
  exact h

/-- Where something failed nothing is promised. -/
theorem andThen {p : Parser σ (Option β)} {R : β → Prop} {f : β → Parser σ (Option α)}
    (hp : Ensures p (OfSome R)) (hf : ∀ b, R b → Ensures (f b) (OfSome Q)) :
    Ensures (andThen p f) (OfSome Q) := by
  refine hp.bind fun r hr => ?_
  cases r with
  | none => exact .pure ofSome_none
  | some b => exact hf b (hr b rfl)

end Ensures

/-! ## What is returned of a short memory -/

/-- Whatever the program returns of no more than `n` symbols has the property. -/
def Within (n : Nat) (p : Parser σ α) (Q : α → Prop) : Prop :=
  ∀ bs a rest, bs.length ≤ n → p.run bs = some (a, rest) → Q a

namespace Within

open Ensures

variable {n : Nat} {Q : α → Prop}

/-- `pure` is within any bound. -/
theorem pure {a : α} (h : Q a) : Within n (Pure.pure a : Parser σ α) Q :=
  fun _ _ _ _ hrun => Ensures.pure h _ _ _ hrun

theorem nothing : Within n (Cursor.nothing : Parser σ α) Q := fun _ _ _ _ h => nomatch h

/-- What is left of a short memory is short. -/
theorem bind {p : Parser σ β} {R : β → Prop} {f : β → Parser σ α} (hstable : Stable p)
    (hp : Within n p R) (hf : ∀ b, R b → Within n (f b) Q) : Within n (p >>= f) Q := by
  intro bs a rest hlen h
  obtain ⟨b, mid, hrun, h⟩ := exists_of_bind h
  have hmid := Nat.le_trans (hstable.length_le _ _ _ hrun) hlen
  exact hf b (hp _ _ _ hlen hrun) _ _ _ hmid h

/-- Behind a stable parser there is no more text than before. -/
theorem bind_any {p : Parser σ β} {f : β → Parser σ α} (hstable : Stable p)
    (hf : ∀ b, Within n (f b) Q) : Within n (p >>= f) Q :=
  bind (R := fun _ => True) hstable (fun _ _ _ _ _ => trivial) fun b _ => hf b

/-- Both branches are within the bound. -/
theorem ite {c : Prop} [Decidable c] {p q : Parser σ α} (hp : Within n p Q) (hq : Within n q Q) :
    Within n (if c then p else q) Q := by
  split
  · exact hp
  · exact hq

/-- After a success there is no more text than before. -/
theorem andThen {p : Parser σ (Option β)} {R : β → Prop} {f : β → Parser σ (Option α)}
    (hstable : Stable p) (hp : Within n p (OfSome R)) (hf : ∀ b, R b → Within n (f b) (OfSome Q)) :
    Within n (andThen p f) (OfSome Q) := by
  refine bind hstable hp fun r hr => ?_
  cases r with
  | none => exact .pure ofSome_none
  | some b => exact hf b (hr b rfl)

end Within

end Cursor
