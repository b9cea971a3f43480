/-
InfiniOps.Lib.Transition — transition systems and the rules to reason about
their runs.

`Lts` is a set of initial states and a labelled step relation; `Reachable`
is the least set closed under both. An invariant is shown by the induction
rule `Reachable.invariant`; what each step relates in a preorder, a run
relates (`Run.relates`). `Lts.restrict` keeps the steps that satisfy a
condition, so "in every run whose steps all meet the condition" is
reachability in the restriction.
-/

/-- A labelled transition system. -/
structure Lts (σ α : Type) where
  init : σ → Prop
  step : σ → α → σ → Prop

namespace Lts

variable {σ α : Type} (L : Lts σ α)

/-- The states that some run reaches. -/
inductive Reachable : σ → Prop where
  | init {s : σ} (h : L.init s) : Reachable s
  | step {s t : σ} {a : α} (h : Reachable s) (hstep : L.step s a t) : Reachable t

variable {L}

theorem Reachable.invariant {P : σ → Prop} (hinit : ∀ s, L.init s → P s)
    (hstep : ∀ s a t, P s → L.step s a t → P t) {s : σ} (h : L.Reachable s) : P s := by
  induction h with
  | init h => exact hinit _ h
  | step _ hst ih => exact hstep _ _ _ ih hst

/-- The steps that meet a condition on state and label. -/
def restrict (L : Lts σ α) (good : σ → α → Prop) : Lts σ α where
  init := L.init
  step s a t := good s a ∧ L.step s a t

/-- A finite run. -/
inductive Run (L : Lts σ α) : σ → List α → σ → Prop where
  | nil (s : σ) : Run L s [] s
  | cons {s t u : σ} {a : α} {as : List α} (hstep : L.step s a t) (hrun : Run L t as u) :
      Run L s (a :: as) u

theorem Run.append {s t u : σ} {as bs : List α} (h : Run L s as t) (h' : Run L t bs u) :
    Run L s (as ++ bs) u := by
  induction h with
  | nil => exact h'
  | cons hstep _ ih => exact .cons hstep (ih h')

/-- What every step relates, in a preorder, every run relates. -/
theorem Run.relates {R : σ → σ → Prop} (hrefl : ∀ s, R s s)
    (htrans : ∀ s t u, R s t → R t u → R s u)
    (hstep : ∀ s a t, L.Reachable s → L.step s a t → R s t) {s t : σ} {as : List α}
    (h : L.Reachable s) (hrun : Run L s as t) : R s t := by
  induction hrun with
  | nil s => exact hrefl s
  | cons hst _ ih => exact htrans _ _ _ (hstep _ _ _ h hst) (ih (.step h hst))

theorem Reachable.run {s t : σ} {as : List α} (h : L.Reachable s) (hrun : Run L s as t) :
    L.Reachable t := by
  induction hrun with
  | nil => exact h
  | cons hst _ ih => exact ih (.step h hst)

end Lts
