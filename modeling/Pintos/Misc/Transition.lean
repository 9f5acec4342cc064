import Mathlib.Logic.Basic

/-!
# Runs of guarded transition systems

A system is a set of initial states and a partial step function `next`; a label
that is not enabled in a state has no successor. `Reachable init next cond`
collects the states at the end of the runs in which every label is taken from a
state that meets `cond`; with `cond` trivially true these are all the runs.
-/

namespace Pintos

open Option

universe u v
variable {σ : Type u} {ι : Type v}

/-- The states that end a run from `init` all of whose steps meet `cond`. -/
inductive Reachable (init : σ → Prop) (next : σ → ι → Option σ) (cond : σ → ι → Prop) : σ → Prop
  | start {s : σ} : init s → Reachable init next cond s
  | step {s s' : σ} {a : ι} : Reachable init next cond s → cond s a → next s a = some s' →
      Reachable init next cond s'

/-- The condition that every step meets. -/
def AnyStep : σ → ι → Prop := fun _ _ => True

instance (s : σ) (a : ι) : Decidable (AnyStep s a) := isTrue trivial

variable {init : σ → Prop} {next : σ → ι → Option σ} {cond : σ → ι → Prop}

/-- What holds initially and is kept by every step that meets `cond` holds in
    every state of such a run. -/
theorem Reachable.invariant {P : σ → Prop} (base : ∀ s, init s → P s)
    (keep : ∀ s a s', P s → cond s a → next s a = some s' → P s') {s : σ}
    (reach : Reachable init next cond s) : P s := by
  induction reach with
  | start hinit => exact base _ hinit
  | step _ hcond hnext ih => exact keep _ _ _ ih hcond hnext

theorem Reachable.mono {cond' : σ → ι → Prop} (weaker : ∀ s a, cond s a → cond' s a) {s : σ}
    (reach : Reachable init next cond s) : Reachable init next cond' s := by
  induction reach with
  | start hinit => exact .start hinit
  | step _ hcond hnext ih => exact .step ih (weaker _ _ hcond) hnext

theorem Reachable.trans {s s' : σ} (reach : Reachable init next cond s)
    (further : Reachable (Eq s) next cond s') : Reachable init next cond s' := by
  induction further with
  | start same => exact same ▸ reach
  | step _ hcond hnext ih => exact .step ih hcond hnext

/-- Take the labels of a list in order; `none` when one of them is not enabled
    or does not meet the condition. -/
def runLabels (next : σ → ι → Option σ) (cond : σ → ι → Prop) [∀ s a, Decidable (cond s a)] :
    σ → List ι → Option σ
  | s, [] => some s
  | s, a :: rest => if cond s a then (next s a).bind fun s' => runLabels next cond s' rest else none

theorem Reachable.of_runLabels [∀ s a, Decidable (cond s a)] {labels : List ι} {s s' : σ}
    (reach : Reachable init next cond s) (hrun : runLabels next cond s labels = some s') :
    Reachable init next cond s' := by
  induction labels generalizing s with
  | nil =>
    simp only [runLabels, some.injEq] at hrun
    exact hrun ▸ reach
  | cons a rest ih =>
    simp only [runLabels, ite_none_right_eq_some, bind_eq_some_iff] at hrun
    obtain ⟨meets, middle, hnext, hrest⟩ := hrun
    exact ih (.step reach meets hnext) hrest

/-- A concrete run whose last state passes a test shows that a state which
    passes it can be reached. -/
theorem reachable_of_run (next : σ → ι → Option σ) (cond : σ → ι → Prop)
    [∀ s a, Decidable (cond s a)] {s : σ} (hinit : init s) (labels : List ι) (p : σ → Prop)
    [DecidablePred p] (hrun : (runLabels next cond s labels).map (decide <| p ·) = some true) :
    ∃ s', Reachable init next cond s' ∧ p s' := by
  obtain ⟨s', hs', hp⟩ := map_eq_some_iff.mp hrun
  exact ⟨s', .of_runLabels (.start hinit) hs', of_decide_eq_true hp⟩

end Pintos
