/-
  STRICT PARSERS — reading values off the front of a finite string of symbols.

  A `Parser σ α` looks at a list of symbols and either fails, or gives a value and what is left of
  the list.  It never looks past the end of what it is given: that is the whole point, it is the
  yardstick against which a reader that has no such scruples is measured.

  * `Yields p w a` — on every input that starts with `w`, the parser `p` consumes exactly `w` and
    gives `a`; the rules `Yields.pure`, `Yields.bind`, `Yields.map` compose such facts;
  * `loop` — the counted loop every container decoder is made of, in any monad;
  * `Yields.loop` — a loop over the encodings of the elements of a list gives the elements,
    up to the relation that the element decoder gives them up to;
  * `take` — the next `n` symbols, or failure.
-/
import Mathlib.Data.List.Forall2
import Mathlib.Data.List.Basic

namespace Parsing

/-- A parser: it consumes symbols from the front of a list, or fails. -/
abbrev Parser (σ α : Type) := StateT (List σ) Option α

variable {σ α β γ : Type}

/-- `n` turns of a loop that reads an element and adds it to what it has. -/
def loop {m : Type → Type} [Monad m] (elem : m α) (add : β → α → β) : Nat → β → m β
  | 0, acc => pure acc
  | n + 1, acc => do
    let a ← elem
    loop elem add n (add acc a)

/-- The next `n` symbols. -/
def take (n : Nat) : Parser σ (List σ) := fun bs =>
  if n ≤ bs.length then some (bs.take n, bs.drop n) else none

/-! ## Sequencing -/

/-- The second program goes on where the first has stopped. -/
theorem bind_run (p : Parser σ α) (f : α → Parser σ β) (bs : List σ) :
    (p >>= f).run bs = (p.run bs).bind fun x => (f x.1).run x.2 := rfl

/-- On every input that starts with `w`, `p` consumes exactly `w` and gives `a`. -/
def Yields (p : Parser σ α) (w : List σ) (a : α) : Prop :=
  ∀ rest, p.run (w ++ rest) = some (a, rest)

namespace Yields

theorem pure (a : α) : Yields (Pure.pure a : Parser σ α) [] a := fun _ => rfl

/-- What is written one after the other is read one after the other. -/
theorem bind {p : Parser σ α} {f : α → Parser σ β} {v w : List σ} {a : α} {b : β}
    (hp : Yields p v a) (hf : Yields (f a) w b) : Yields (p >>= f) (v ++ w) b := by
  intro rest
  rw [bind_run, List.append_assoc, hp]
  exact hf rest

/-- The last step of a sequence often only builds the result. -/
theorem map {p : Parser σ α} {w : List σ} {a : α} (hp : Yields p w a) (f : α → β) :
    Yields (p >>= fun x => Pure.pure (f x)) w (f a) := by
  have h : Yields (p >>= fun x => Pure.pure (f x)) (w ++ []) (f a) := bind hp (Yields.pure (f a))
  rwa [List.append_nil] at h

/-- As many bytes as are asked for. -/
theorem take {w : List σ} {n : Nat} (hn : w.length = n) : Yields (take n) w w := by
  intro rest
  subst hn
  show (if w.length ≤ (w ++ rest).length then _ else none) = _
  rw [if_pos (by rw [List.length_append]; omega), List.take_left, List.drop_left]

/-! ## Loops -/

/-- A loop over the encodings of `xs` reads one element for each of them.  The elements read are
    related to those written as the element parser relates them, and are added in order. -/
theorem loop {elem : Parser σ α} {wire : γ → List σ} {R : γ → α → Prop} (add : β → α → β)
    (xs : List γ) (h : ∀ x ∈ xs, ∃ y, Yields elem (wire x) y ∧ R x y) :
    ∃ ys, List.Forall₂ R xs ys ∧
      ∀ acc, Yields (Parsing.loop elem add xs.length acc) (xs.flatMap wire) (ys.foldl add acc) := by
  induction xs with
  | nil => exact ⟨[], .nil, fun acc => Yields.pure acc⟩
  | cons x xs ih =>
    obtain ⟨y, hy, hR⟩ := h x List.mem_cons_self
    obtain ⟨ys, hall, hys⟩ := ih fun x' hx' => h x' (List.mem_cons_of_mem x hx')
    refine ⟨y :: ys, .cons hR hall, fun acc => ?_⟩
    rw [List.flatMap_cons]
    exact hy.bind (hys (add acc y))

end Yields

end Parsing
