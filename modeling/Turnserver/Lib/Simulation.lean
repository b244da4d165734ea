/-
  PROGRAMS THAT MAY STOP — judgements about `StateT σ Option` programs, and rules to compose them.

  A program over a state `σ` may also stop for good (`none`): a failed assertion, or no fuel left.

  * `Simulates R p q` — from related states both stop, or both return the same and related states;
  * `Follows bad R p q` — what `p` does without going bad, `q` does as well from a related state; and
    `p` never gets out of a bad state again;
  * `Total D n p` — from a state whose size is below `n` the program returns, and the state has not
    grown; `Shrinks D P p` — it has become smaller, with such a result;
  * `Asks p` — the program stops where it is refused something that it asks for, and the answers that
    it gets change nothing else; `Gives p s asks r` — these are the things, and this it returns.

  Each of them is composed along `pure`, `bind` and case distinctions on results.
-/
import Mathlib.Data.List.Basic

namespace Simulation

variable {σ σ' α β : Type}

/-- One program after the other. -/
theorem run_bind (p : StateT σ Option α) (f : α → StateT σ Option β) (s : σ) :
    (p >>= f).run s = (p.run s).bind fun r => (f r.1).run r.2 := rfl

/-- A run that returns has returned in between. -/
theorem bind_some {p : StateT σ Option α} {f : α → StateT σ Option β} {s u : σ} {b : β}
    (h : (p >>= f).run s = some (b, u)) :
    ∃ a t, p.run s = some (a, t) ∧ (f a).run t = some (b, u) := by
  rw [run_bind, Option.bind_eq_some_iff] at h
  rcases h with ⟨⟨a, t⟩, hp, hf⟩
  exact ⟨a, t, hp, hf⟩

/-- `pure` changes nothing. -/
theorem pure_some {a b : α} {s t : σ} (h : (pure a : StateT σ Option α).run s = some (b, t)) :
    a = b ∧ s = t := by
  cases h
  exact ⟨rfl, rfl⟩

/-! ## The same run -/

/-- Both stop, or both return the same and related states. -/
def Related (R : σ → σ' → Prop) : Option (α × σ) → Option (α × σ') → Prop
  | some (a, s), some (a', s') => a = a' ∧ R s s'
  | none, none => True
  | _, _ => False

/-- From related states the programs do the same. -/
def Simulates (R : σ → σ' → Prop) (p : StateT σ Option α) (q : StateT σ' Option α) : Prop :=
  ∀ s s', R s s' → Related R (p.run s) (q.run s')

namespace Simulates

variable {R : σ → σ' → Prop}

theorem pure (a : α) : Simulates R (Pure.pure a) (Pure.pure a) := fun _ _ h => ⟨rfl, h⟩

theorem failure : Simulates (α := α) R (fun _ => none) (fun _ => none) := fun _ _ _ => trivial

/-- In a row. -/
theorem bind {p : StateT σ Option α} {q : StateT σ' Option α} {f : α → StateT σ Option β}
    {g : α → StateT σ' Option β} (h : Simulates R p q) (hf : ∀ a, Simulates R (f a) (g a)) :
    Simulates R (p >>= f) (q >>= g) := by
  intro s s' hR
  have hpq := h s s' hR
  rw [run_bind, run_bind]
  -- both fail or both succeed; then both go on
  cases hp : p.run s with
  | none =>
    cases hq : q.run s' with
    | none => trivial
    | some y =>
      rw [hp, hq] at hpq
      exact hpq.elim
  | some x =>
    cases hq : q.run s' with
    | none =>
      rw [hp, hq] at hpq
      exact hpq.elim
    | some y =>
      rw [hp, hq] at hpq
      rcases x with ⟨a, t⟩
      rcases y with ⟨a', t'⟩
      rcases hpq with ⟨rfl, hR'⟩
      exact hf a t t' hR'

/-- Both branches of a condition. -/
theorem ite {c : Prop} [Decidable c] {p₁ p₂ : StateT σ Option α} {q₁ q₂ : StateT σ' Option α}
    (h₁ : Simulates R p₁ q₁) (h₂ : Simulates R p₂ q₂) :
    Simulates R (if c then p₁ else p₂) (if c then q₁ else q₂) := by
  split
  · exact h₁
  · exact h₂

end Simulates

/-! ## The same run, unless it goes bad -/

/-- What goes well in `p` goes the same way in `q`, and what has gone bad stays bad. -/
structure Follows (bad : σ → Prop) (R : σ → σ' → Prop) (p : StateT σ Option α)
    (q : StateT σ' Option α) : Prop where
  stays_bad : ∀ s a t, p.run s = some (a, t) → bad s → bad t
  follows : ∀ s s' a t, R s s' → p.run s = some (a, t) → ¬ bad t →
    ∃ t', q.run s' = some (a, t') ∧ R t t'

namespace Follows

variable {bad : σ → Prop} {R : σ → σ' → Prop}

theorem pure (a : α) : Follows bad R (Pure.pure a) (Pure.pure a) where
  stays_bad s b t h hs := by
    rcases pure_some h with ⟨-, rfl⟩
    exact hs
  follows s s' b t hR h _ := by
    rcases pure_some h with ⟨rfl, rfl⟩
    exact ⟨s', rfl, hR⟩

/-- A program that stops is followed by anything. -/
theorem failure (q : StateT σ' Option α) : Follows bad R (fun _ => none) q where
  stays_bad _ _ _ h _ := by cases h
  follows _ _ _ _ _ h _ := by cases h

/-- In a row: had it gone bad in between, it would be bad at the end. -/
theorem bind {p : StateT σ Option α} {q : StateT σ' Option α} {f : α → StateT σ Option β}
    {g : α → StateT σ' Option β} (h : Follows bad R p q) (hf : ∀ a, Follows bad R (f a) (g a)) :
    Follows bad R (p >>= f) (q >>= g) where
  stays_bad s b u hrun hs := by
    rcases bind_some hrun with ⟨a, t, hp, hfa⟩
    exact (hf a).stays_bad t b u hfa (h.stays_bad s a t hp hs)
  follows s s' b u hR hrun hu := by
    rcases bind_some hrun with ⟨a, t, hp, hfa⟩
    -- had it been bad in between, it would be bad at the end
    have ht : ¬ bad t := fun hbad => hu ((hf a).stays_bad t b u hfa hbad)
    rcases h.follows s s' a t hR hp ht with ⟨t', hq, hR'⟩
    rcases (hf a).follows t t' b u hR' hfa hu with ⟨u', hg, hR''⟩
    exact ⟨u', by rw [run_bind, hq]; exact hg, hR''⟩

/-- After a result that is returned only by going bad, everything is allowed. -/
theorem bind_of {p : StateT σ Option α} {q : StateT σ' Option α} {f : α → StateT σ Option β}
    {g : α → StateT σ' Option β} {ok : α → Prop} (h : Follows bad R p q)
    (hok : ∀ s a t, p.run s = some (a, t) → ¬ bad t → ok a)
    (hsticky : ∀ a s b t, (f a).run s = some (b, t) → bad s → bad t)
    (hf : ∀ a, ok a → Follows bad R (f a) (g a)) : Follows bad R (p >>= f) (q >>= g) where
  stays_bad s b u hrun hs := by
    rcases bind_some hrun with ⟨a, t, hp, hfa⟩
    exact hsticky a t b u hfa (h.stays_bad s a t hp hs)
  follows s s' b u hR hrun hu := by
    rcases bind_some hrun with ⟨a, t, hp, hfa⟩
    have ht : ¬ bad t := fun hbad => hu (hsticky a t b u hfa hbad)
    rcases h.follows s s' a t hR hp ht with ⟨t', hq, hR'⟩
    rcases (hf a (hok s a t hp ht)).follows t t' b u hR' hfa hu with ⟨u', hg, hR''⟩
    exact ⟨u', by rw [run_bind, hq]; exact hg, hR''⟩

/-- Both branches of a condition. -/
theorem ite {c : Prop} [Decidable c] {p₁ p₂ : StateT σ Option α} {q₁ q₂ : StateT σ' Option α}
    (h₁ : Follows bad R p₁ q₁) (h₂ : Follows bad R p₂ q₂) :
    Follows bad R (if c then p₁ else p₂) (if c then q₁ else q₂) := by
  split
  · exact h₁
  · exact h₂

end Follows

/-! ## Returning -/

/-- What a program may do to its state: nothing that makes it larger. -/
structure Descent (σ : Type) where
  le : σ → σ → Prop
  size : σ → Nat
  refl : ∀ s, le s s
  trans : ∀ {s t u}, le s t → le t u → le s u
  size_le : ∀ {s t}, le s t → size t ≤ size s

section Returning

variable (D : Descent σ)

/-- The program returns from every state that is small enough. -/
def Total (n : Nat) (p : StateT σ Option α) : Prop :=
  ∀ s, D.size s < n → ∃ a t, p.run s = some (a, t) ∧ D.le s t

/-- The state becomes smaller where the result is one of `P`. -/
def Shrinks (P : α → Prop) (p : StateT σ Option α) : Prop :=
  ∀ s a t, p.run s = some (a, t) → P a → D.size t < D.size s

namespace Total

variable {D} {n : Nat}

theorem pure (a : α) : Total D n (Pure.pure a) := fun s _ => ⟨a, s, rfl, D.refl s⟩

/-- In a row: the state has not grown in between. -/
theorem bind {p : StateT σ Option α} {f : α → StateT σ Option β} (h : Total D n p)
    (hf : ∀ a, Total D n (f a)) : Total D n (p >>= f) := by
  intro s hs
  rcases h s hs with ⟨a, t, hp, hle⟩
  rcases hf a t (Nat.lt_of_le_of_lt (D.size_le hle) hs) with ⟨b, u, hfa, hle'⟩
  exact ⟨b, u, by rw [run_bind, hp]; exact hfa, D.trans hle hle'⟩

/-- After a program that makes the state smaller there is one turn less to go. -/
theorem bind_shrinks {P : α → Prop} {p : StateT σ Option α} {f : α → StateT σ Option β}
    (h : Total D (n + 1) p) (hshrinks : Shrinks D P p) (hf : ∀ a, P a → Total D n (f a))
    (hf' : ∀ a, ¬ P a → Total D (n + 1) (f a)) : Total D (n + 1) (p >>= f) := by
  intro s hs
  rcases h s hs with ⟨a, t, hp, hle⟩
  have hnext : ∃ b u, (f a).run t = some (b, u) ∧ D.le t u := by
    by_cases ha : P a
    · have hlt := hshrinks s a t hp ha
      exact hf a ha t (by omega)
    · exact hf' a ha t (Nat.lt_of_le_of_lt (D.size_le hle) hs)
  rcases hnext with ⟨b, u, hfa, hle'⟩
  exact ⟨b, u, by rw [run_bind, hp]; exact hfa, D.trans hle hle'⟩

/-- Both branches of a condition. -/
theorem ite {c : Prop} [Decidable c] {p q : StateT σ Option α} (h₁ : Total D n p)
    (h₂ : Total D n q) : Total D n (if c then p else q) := by
  split
  · exact h₁
  · exact h₂

/-- A smaller bound asks for less. -/
theorem mono {p : StateT σ Option α} {m : Nat} (h : Total D n p) (hmn : m ≤ n) : Total D m p :=
  fun s hs => h s (Nat.lt_of_lt_of_le hs hmn)

end Total

end Returning

/-! ## Being refused something -/

/-- Everything is granted. -/
def always {δ : Type} : δ → Bool := fun _ => true

/-- For each state there are the things that the program asks for.  Granted all of them it does what
    it does when nothing is ever refused; otherwise it stops. -/
def Asks {δ : Type} (p : (δ → Bool) → StateT σ Option α) : Prop :=
  ∀ s, ∃ asks : List δ, ∀ grant,
    (p grant).run s = if asks.all grant then (p always).run s else none

namespace Asks

variable {δ : Type}

/-- A program that asks for nothing. -/
theorem const (p : StateT σ Option α) : Asks fun _ : δ → Bool => p := fun _ => ⟨[], fun _ => rfl⟩

/-- A program that asks for one thing. -/
theorem one (d : δ) (p : StateT σ Option α) :
    Asks fun grant => if grant d then p else fun _ => none := by
  refine fun s => ⟨[d], fun grant => ?_⟩
  rw [List.all_cons, List.all_nil, Bool.and_true]
  cases hd : grant d with
  | false => simp only [hd, Bool.false_eq_true, if_false]; rfl
  | true => simp only [hd, always, if_true]

/-- What comes next is asked for after what came before, if there is a next. -/
theorem bind {p : (δ → Bool) → StateT σ Option α} {f : (δ → Bool) → α → StateT σ Option β}
    (h : Asks p) (hf : ∀ a, Asks fun grant => f grant a) : Asks fun grant => p grant >>= f grant := by
  intro s
  rcases h s with ⟨asks, hasks⟩
  cases hp : (p always).run s with
  | none =>
    refine ⟨asks, fun grant => ?_⟩
    rw [run_bind, run_bind, hasks, hp, ite_self]
    exact (ite_self _).symm
  | some r =>
    rcases hf r.1 r.2 with ⟨asks', hasks'⟩
    refine ⟨asks ++ asks', fun grant => ?_⟩
    rw [run_bind, run_bind, hasks, hp, List.all_append, Option.bind_some]
    cases asks.all grant with
    | false => rfl
    | true => exact hasks' grant

/-- Both branches of a condition. -/
theorem ite {c : Prop} [Decidable c] {p q : (δ → Bool) → StateT σ Option α} (h₁ : Asks p)
    (h₂ : Asks q) : Asks fun grant => if c then p grant else q grant := by
  by_cases hc : c
  · simp only [if_pos hc]
    exact h₁
  · simp only [if_neg hc]
    exact h₂

end Asks

/-- From this state the program returns `r` when it is granted all of `asks`, and stops otherwise. -/
def Gives {δ : Type} (p : (δ → Bool) → StateT σ Option α) (s : σ) (asks : List δ) (r : α × σ) : Prop :=
  ∀ grant, (p grant).run s = if asks.all grant then some r else none

/-- What a program that returns has asked for. -/
theorem Asks.gives {δ : Type} {p : (δ → Bool) → StateT σ Option α} (h : Asks p) {s : σ} {r : α × σ}
    (hrun : (p always).run s = some r) : ∃ asks, Gives p s asks r := by
  rcases h s with ⟨asks, hasks⟩
  exact ⟨asks, fun grant => by rw [hasks, hrun]⟩

/-- What one of two programs that do the same asks for, the other one asks for. -/
theorem Gives.simulated {δ : Type} {R : σ → σ' → Prop} {p : (δ → Bool) → StateT σ Option α}
    {q : (δ → Bool) → StateT σ' Option α} (h : ∀ grant, Simulates R (p grant) (q grant))
    (hasks : Asks p) {s : σ} {s' t' : σ'} {asks : List δ} {a : α} (hgives : Gives q s' asks (a, t'))
    (hR : R s s') : ∃ t, Gives p s asks (a, t) ∧ R t t' := by
  have hrelated : ∀ grant, Related R ((p grant).run s)
      (if asks.all grant then some (a, t') else none) := fun grant => by
    rw [← hgives grant]
    exact h grant s s' hR
  have hall : asks.all always = true := List.all_eq_true.mpr fun _ _ => rfl
  have halways := hrelated always
  rw [hall, if_pos rfl] at halways
  cases hp : (p always).run s with
  | none =>
    rw [hp] at halways
    exact halways.elim
  | some r =>
    rcases r with ⟨a', t⟩
    rw [hp] at halways
    rcases halways with ⟨rfl, hR'⟩
    rcases hasks.gives hp with ⟨asks', hown⟩
    refine ⟨t, fun grant => ?_, hR'⟩
    have hgrant := hrelated grant
    rw [hown grant] at hgrant ⊢
    -- one of them cannot return while the other one stops
    cases hx : asks'.all grant <;> cases hy : asks.all grant <;> rw [hx, hy] at hgrant
    · exact hgrant.elim
    · exact hgrant.elim

end Simulation
