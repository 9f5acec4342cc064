import Mathlib.Logic.Function.Basic

/-!
# Partial maps

What a partial map, a function into an option type, holds after an update at one point.
-/

namespace Pintos

open Function

variable {α β : Type} [DecidableEq α] {f : α → Option β} {a x : α} {b y : β}

theorem update_eq_some_iff :
    update f a (some b) x = some y ↔ x = a ∧ b = y ∨ x ≠ a ∧ f x = some y := by
  grind [update_apply]

theorem update_none_eq_some_iff : update f a none x = some y ↔ x ≠ a ∧ f x = some y := by
  grind [update_apply]

end Pintos
