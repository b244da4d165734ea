/-
  RUNS OF STATEFUL PROGRAMS — rules for one run, and for two runs side by side.

  A program over a state `σ` is a `StateM σ α`.  Two judgements about such programs:

  * `Gives I act a` — from every state with the invariant `I`, the program returns `a` and leaves `I`;
  * `Lockstep R act act'` — from the same state, the two programs end in the same state with results
    related by `R`.

  Both are composed along `pure`, `bind` and the counted loop.  The loop rule of the second one
  (`Lockstep.loop`) is the point: two loops that add the same elements to related accumulators stay
  related, whatever the elements are.
-/
import Turnserver.Lib.Parser

namespace StateRuns

open Parsing

variable {σ α β γ δ : Type}

/-! ## One run -/

/-- From a state with `I`, the program returns `a` and leaves a state with `I`. -/
def Gives (I : σ → Prop) (act : StateM σ α) (a : α) : Prop :=
  ∀ s, I s → (act.run s).1 = a ∧ I (act.run s).2

namespace Gives

variable {I : σ → Prop}

theorem pure (a : α) : Gives I (Pure.pure a : StateM σ α) a := fun _ hI => ⟨rfl, hI⟩

/-- In a row. -/
theorem bind {act : StateM σ α} {f : α → StateM σ β} {a : α} {b : β} (h : Gives I act a)
    (hf : Gives I (f a) b) : Gives I (act >>= f) b := by
  intro s hI
  obtain ⟨ha, hI'⟩ := h s hI
  have hnext := hf _ hI'
  rw [← ha] at hnext
  exact hnext

/-- A result that is computed from. -/
theorem map {act : StateM σ α} {a : α} (h : Gives I act a) (f : α → β) :
    Gives I (act >>= fun x => Pure.pure (f x)) (f a) := h.bind (pure (f a))

end Gives

/-! ## Two runs -/

/-- From the same state, the two programs end in the same state with related results. -/
def Lockstep (R : α → β → Prop) (act : StateM σ α) (act' : StateM σ β) : Prop :=
  ∀ s, R (act.run s).1 (act'.run s).1 ∧ (act.run s).2 = (act'.run s).2

namespace Lockstep

/-- Every program goes in step with itself. -/
theorem refl {R : α → α → Prop} (hR : ∀ x, R x x) (act : StateM σ α) : Lockstep R act act :=
  fun _ => ⟨hR _, rfl⟩

/-- Related results without a step. -/
theorem pure {R : α → β → Prop} {x : α} {y : β} (h : R x y) :
    Lockstep R (Pure.pure x : StateM σ α) (Pure.pure y) := fun _ => ⟨h, rfl⟩

/-- In a row. -/
theorem bind {R : α → β → Prop} {S : γ → δ → Prop} {act : StateM σ α} {act' : StateM σ β}
    {f : α → StateM σ γ} {f' : β → StateM σ δ} (h : Lockstep R act act')
    (hf : ∀ x y, R x y → Lockstep S (f x) (f' y)) : Lockstep S (act >>= f) (act' >>= f') := by
  intro s
  obtain ⟨hR, hs⟩ := h s
  have hnext := hf _ _ hR (act.run s).2
  refine ⟨?_, ?_⟩
  · show S ((f _).run (act.run s).2).1 ((f' _).run (act'.run s).2).1
    rw [← hs]
    exact hnext.1
  · show ((f _).run (act.run s).2).2 = ((f' _).run (act'.run s).2).2
    rw [← hs]
    exact hnext.2

/-- A program followed by two programs that are in lockstep whatever it returns. -/
theorem bind_same {S : γ → δ → Prop} (act : StateM σ α) {f : α → StateM σ γ} {f' : α → StateM σ δ}
    (hf : ∀ x, Lockstep S (f x) (f' x)) : Lockstep S (act >>= f) (act >>= f') := by
  refine (refl (fun x => Eq.refl x) act).bind ?_
  rintro x _ rfl
  exact hf x

/-- Two loops that add the same elements to related accumulators. -/
theorem loop {R : β → γ → Prop} (elem : StateM σ α) {add : β → α → β} {add' : γ → α → γ}
    (hadd : ∀ x y y', R y y' → R (add y x) (add' y' x)) (n : Nat) {acc : β} {acc' : γ}
    (hacc : R acc acc') :
    Lockstep R (Parsing.loop elem add n acc) (Parsing.loop elem add' n acc') := by
  induction n generalizing acc acc' with
  | zero => exact pure hacc
  | succ n ih => exact bind_same elem fun x => ih (hadd x _ _ hacc)

end Lockstep

end StateRuns
