import Mathlib.Tactic
/-
# Runs of a labelled transition system

The general part of every "in every run" result: a step relation `step s a t` over arbitrary
states and labels, its finite runs, and the induction that turns a fact about one step into a
fact about a whole run. Nothing here knows what the states are.

* `Run step s as t` — a run from `s` to `t` whose labels are `as`, oldest first.
* `Guarded G step` — the steps of `step` that meet `G`, a condition on the state before the
  step and its label.
* `Kept P step` — the steps of `step` that end where `P` holds.
* `Run.inv` — an invariant of the steps is an invariant of the runs.
* `Run.steps_iff` — the runs whose steps are as they should be are those whose steps all meet `G`.
* `Run.kept_iff` — so are the runs that stay in `P`.
-/

namespace Runs

variable {σ α : Type*}

/-- A finite run; the newest step is the outermost one. -/
inductive Run (step : σ → α → σ → Prop) (s : σ) : List α → σ → Prop
  | nil : Run step s [] s
  | snoc {as : List α} {t : σ} {a : α} {u : σ} : Run step s as t → step t a u → Run step s (as ++ [a]) u

/-- The steps of `step` taken from a state and with a label that meet `G`. -/
def Guarded (G : σ → α → Prop) (step : σ → α → σ → Prop) (s : σ) (a : α) (t : σ) : Prop :=
  G s a ∧ step s a t

/-- The steps of `step` that end in a state with `P`. -/
def Kept (P : σ → Prop) (step : σ → α → σ → Prop) (s : σ) (a : α) (t : σ) : Prop :=
  step s a t ∧ P t

variable {step step' : σ → α → σ → Prop} {G : σ → α → Prop} {s t u : σ} {a : α} {as : List α}

theorem Run.single (h : step s a t) : Run step s [a] t := .snoc .nil h

theorem Run.append {bs : List α} (h : Run step s as t) (h' : Run step t bs u) : Run step s (as ++ bs) u := by
  induction h' with
  | nil => rwa [List.append_nil]
  | snoc _ hst ih => rw [← List.append_assoc]; exact .snoc ih hst

/-- Runs of a smaller step relation are runs of a larger one. -/
theorem Run.mono (hs : ∀ s a t, step s a t → step' s a t) (h : Run step s as t) : Run step' s as t := by
  induction h with
  | nil => exact .nil
  | snoc _ hst ih => exact .snoc ih (hs _ _ _ hst)

/-- A guarded run is a run. -/
theorem Run.unguard (h : Run (Guarded G step) s as t) : Run step s as t :=
  h.mono fun _ _ _ hst => hst.2

/-- **Invariant rule.** What holds at the start and is kept by every step holds at the end. -/
theorem Run.inv (I : σ → Prop) (h0 : I s) (hstep : ∀ t a u, I t → step t a u → I u)
    (h : Run step s as t) : I t := by
  induction h with
  | nil => exact h0
  | snoc _ hst ih => exact hstep _ _ _ ih hst

/-- **Exact guard rule.** If from a state with `I` exactly the steps that meet `G` are as in `Q`, and those keep `I`,
then the runs of steps as in `Q` are the runs guarded by `G`. -/
theorem Run.steps_iff {Q : σ → α → σ → Prop} (I : σ → Prop) (h0 : I s)
    (hstep : ∀ t a u, I t → step t a u → (Q t a u ↔ G t a)) (hinv : ∀ t a u, I t → step t a u → G t a → I u) :
    Run (fun t a u => step t a u ∧ Q t a u) s as t ↔ Run (Guarded G step) s as t := by
  have hboth : (Run (fun t a u => step t a u ∧ Q t a u) s as t → I t ∧ Run (Guarded G step) s as t) ∧
      (Run (Guarded G step) s as t → I t ∧ Run (fun t a u => step t a u ∧ Q t a u) s as t) := by
    constructor
    · intro h
      induction h with
      | nil => exact ⟨h0, .nil⟩
      | snoc _ hst ih =>
        have hG := (hstep _ _ _ ih.1 hst.1).1 hst.2
        exact ⟨hinv _ _ _ ih.1 hst.1 hG, .snoc ih.2 ⟨hG, hst.1⟩⟩
    · intro h
      induction h with
      | nil => exact ⟨h0, .nil⟩
      | snoc _ hst ih =>
        exact ⟨hinv _ _ _ ih.1 hst.2 hst.1, .snoc ih.2 ⟨hst.2, (hstep _ _ _ ih.1 hst.2).2 hst.1⟩⟩
  exact ⟨fun h => (hboth.1 h).2, fun h => (hboth.2 h).2⟩

/-- The runs that stay in `P`, if from a state with `I` exactly the steps that meet `G` end there. -/
theorem Run.kept_iff (I P : σ → Prop) (h0 : I s) (hstep : ∀ t a u, I t → step t a u → (P u ↔ G t a))
    (hinv : ∀ t a u, I t → step t a u → G t a → I u) :
    Run (Kept P step) s as t ↔ Run (Guarded G step) s as t :=
  Run.steps_iff I h0 hstep hinv

end Runs
