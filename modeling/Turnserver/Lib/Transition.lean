/-
  TRANSITION SYSTEMS — runs, invariants, and invariants that hold exactly under a condition.

  A system is a step relation `step : σ → ι → σ → Prop` over states `σ` and inputs `ι` (an input is
  everything the environment decides: which event comes next and with which data).  `Run step s ts t`
  is a finite execution with its trace `ts` of (state before, input, state after).

  * `Run.invariant` — what the start has and every step preserves holds at the end of every run;
  * `Run.invariant_of` — the same when only the steps that meet a condition preserve it;
  * `Run.steps_iff`, `Run.property_iff`, `Run.invariant_iff` — the EXACT form: when a step from a good
    state leads to a good state if and only if it meets the condition, then a run stays good throughout
    if and only if all of its steps meet the condition.  One lemma about one step settles every run.
  * `Unfolds` — every entry of a history is allowed by the entries before it.
-/
import Mathlib.Data.List.Basic

namespace Transition

variable {σ ι : Type} {step : σ → ι → σ → Prop}

/-- A finite execution from `s` to `t`; the trace lists every step with the states around it. -/
inductive Run (step : σ → ι → σ → Prop) : σ → List (σ × ι × σ) → σ → Prop
  | nil (s : σ) : Run step s [] s
  | snoc {s t u : σ} {ts : List (σ × ι × σ)} {i : ι} :
      Run step s ts t → step t i u → Run step s (ts ++ [(t, i, u)]) u

namespace Run

/-- A step is a run of length one. -/
theorem single {s t : σ} {i : ι} (h : step s i t) : Run step s [(s, i, t)] t :=
  snoc (nil s) h

/-- Runs compose. -/
theorem append {s t u : σ} {ts us : List (σ × ι × σ)} (h₁ : Run step s ts t)
    (h₂ : Run step t us u) : Run step s (ts ++ us) u := by
  induction h₂ with
  | nil => rwa [List.append_nil]
  | snoc _ hstep ih =>
    rw [← List.append_assoc]
    exact snoc ih hstep

/-- A run that starts with a step. -/
theorem cons {s t u : σ} {i : ι} {ts : List (σ × ι × σ)} (h : step s i t)
    (hrun : Run step t ts u) : Run step s ((s, i, t) :: ts) u :=
  append (single h) hrun

/-- Everything in a trace is a step of the system. -/
theorem step_of_mem {s t : σ} {ts : List (σ × ι × σ)} (h : Run step s ts t) :
    ∀ x ∈ ts, step x.1 x.2.1 x.2.2 := by
  induction h with
  | nil => exact fun x hx => absurd hx List.not_mem_nil
  | snoc _ hstep ih =>
    intro x hx
    rcases List.mem_append.mp hx with hx | hx
    · exact ih x hx
    · rw [List.mem_singleton.mp hx]
      exact hstep

/-! ## Invariants -/

/-- What the start has and the steps that meet `ok` preserve holds in every state of a run whose
    steps all meet `ok`. -/
theorem invariant_of {Inv : σ → Prop} {ok : σ → ι → Prop}
    (hstep : ∀ s i t, Inv s → ok s i → step s i t → Inv t)
    {s t : σ} {ts : List (σ × ι × σ)} (h : Run step s ts t) (hs : Inv s)
    (hok : ∀ x ∈ ts, ok x.1 x.2.1) :
    Inv t ∧ ∀ x ∈ ts, Inv x.1 ∧ Inv x.2.2 := by
  induction h with
  | nil => exact ⟨hs, fun x hx => absurd hx List.not_mem_nil⟩
  | snoc hrun hlast ih =>
    obtain ⟨ht, hall⟩ := ih (fun x hx => hok x (List.mem_append_left _ hx))
    have hu := hstep _ _ _ ht (hok _ (List.mem_append_right _ (List.mem_singleton.mpr rfl))) hlast
    refine ⟨hu, fun x hx => ?_⟩
    rcases List.mem_append.mp hx with hx | hx
    · exact hall x hx
    · rw [List.mem_singleton.mp hx]
      exact ⟨ht, hu⟩

/-- What the start has and every step preserves holds in every state of every run. -/
theorem invariant {Inv : σ → Prop} (hstep : ∀ s i t, Inv s → step s i t → Inv t)
    {s t : σ} {ts : List (σ × ι × σ)} (h : Run step s ts t) (hs : Inv s) :
    Inv t ∧ ∀ x ∈ ts, Inv x.1 ∧ Inv x.2.2 :=
  invariant_of (fun s i t hi (_ : True) => hstep s i t hi) h hs (fun _ _ => trivial)

/-- **The exact form.**  If every step from a good state has the property exactly when it meets `ok`,
    and those that meet `ok` lead to good states, then all steps of a run have the property exactly
    when all of them meet `ok`. -/
theorem steps_iff {Inv : σ → Prop} {P : σ × ι × σ → Prop} {ok : σ → ι → Prop}
    (hiff : ∀ s i t, Inv s → step s i t → (P (s, i, t) ↔ ok s i))
    (hstep : ∀ s i t, Inv s → ok s i → step s i t → Inv t)
    {s t : σ} {ts : List (σ × ι × σ)} (h : Run step s ts t) (hs : Inv s) :
    (∀ x ∈ ts, P x) ↔ ∀ x ∈ ts, ok x.1 x.2.1 := by
  constructor
  · intro hprop
    -- the state before a step is the start, or the state after a step that met `ok`
    have hall : Inv t ∧ ∀ x ∈ ts, ok x.1 x.2.1 := by
      induction h with
      | nil => exact ⟨hs, fun x hx => absurd hx List.not_mem_nil⟩
      | snoc hrun hlast ih =>
        obtain ⟨ht, hok⟩ := ih (fun x hx => hprop x (List.mem_append_left _ hx))
        have hlast_ok := (hiff _ _ _ ht hlast).mp
          (hprop _ (List.mem_append_right _ (List.mem_singleton.mpr rfl)))
        refine ⟨hstep _ _ _ ht hlast_ok hlast, fun x hx => ?_⟩
        rcases List.mem_append.mp hx with hx | hx
        · exact hok x hx
        · rw [List.mem_singleton.mp hx]
          exact hlast_ok
    exact hall.2
  · intro hok x hx
    have hbefore := ((invariant_of hstep h hs hok).2 x hx).1
    exact (hiff _ _ _ hbefore (step_of_mem h x hx)).mpr (hok x hx)

/-- The exact form for a property of the states reached. -/
theorem property_iff {Inv P : σ → Prop} {ok : σ → ι → Prop}
    (hiff : ∀ s i t, Inv s → step s i t → (P t ↔ ok s i))
    (hstep : ∀ s i t, Inv s → ok s i → step s i t → Inv t)
    {s t : σ} {ts : List (σ × ι × σ)} (h : Run step s ts t) (hs : Inv s) :
    (∀ x ∈ ts, P x.2.2) ↔ ∀ x ∈ ts, ok x.1 x.2.1 := by
  have hsteps := steps_iff (P := fun x => P x.2.2) hiff hstep h hs
  exact hsteps

/-- The exact form for the invariant itself. -/
theorem invariant_iff {Inv : σ → Prop} {ok : σ → ι → Prop}
    (hstep : ∀ s i t, Inv s → step s i t → (Inv t ↔ ok s i))
    {s t : σ} {ts : List (σ × ι × σ)} (h : Run step s ts t) (hs : Inv s) :
    (∀ x ∈ ts, Inv x.2.2) ↔ ∀ x ∈ ts, ok x.1 x.2.1 :=
  property_iff hstep (fun s i t hi ho hst => (hstep s i t hi hst).mpr ho) h hs

end Run

/-! ## Systems that compute their next state -/

section Deterministic

variable (enabled : σ → ι → Prop) (next : σ → ι → σ)

/-- What a list of inputs does from `s`, step by step. -/
def trace : σ → List ι → List (σ × ι × σ)
  | _, [] => []
  | s, i :: is => (s, i, next s i) :: trace (next s i) is

/-- Inputs that are enabled one after the other make a run. -/
theorem Run.of_inputs {s : σ} {is : List ι}
    (h : ∀ x ∈ trace next s is, enabled x.1 x.2.1) :
    Run (fun s i t => enabled s i ∧ t = next s i) s (trace next s is) (is.foldl next s) := by
  induction is generalizing s with
  | nil => exact Run.nil s
  | cons i is ih =>
    rw [trace] at h ⊢
    have hhead := h _ List.mem_cons_self
    have htail := ih fun x hx => h x (List.mem_cons_of_mem _ hx)
    exact Run.cons ⟨hhead, rfl⟩ htail

end Deterministic

/-! ## Histories -/

/-- Every entry of a history stands in the relation `R` to what came before it. -/
def Unfolds {α : Type} (R : List α → α → Prop) (l : List α) : Prop :=
  ∀ before a after, l = before ++ a :: after → R before a

/-- Of an empty history nothing is asked. -/
theorem unfolds_nil {α : Type} (R : List α → α → Prop) : Unfolds R [] := by
  intro before a after h
  exact absurd h.symm (by simp)

/-- A history grows by an entry that the history so far allows. -/
theorem unfolds_concat {α : Type} {R : List α → α → Prop} {l : List α} {b : α} :
    Unfolds R (l ++ [b]) ↔ Unfolds R l ∧ R l b := by
  constructor
  · intro h
    constructor
    · intro before a after hl
      exact h before a (after ++ [b]) (by rw [hl, List.append_assoc, List.cons_append])
    · exact h l b [] rfl
  · rintro ⟨hl, hb⟩ before a after heq
    rcases List.eq_nil_or_concat after with rfl | ⟨after, c, rfl⟩
    · obtain ⟨rfl, ha⟩ := List.append_inj' heq rfl
      rw [← List.singleton_inj.mp ha]
      exact hb
    · rw [List.concat_eq_append, ← List.cons_append, ← List.append_assoc] at heq
      exact hl before a after (List.append_inj' heq rfl).1

end Transition
