import Mathlib.Data.List.Basic

/-!
# Computations that may stop

A computation in `Except` returns a result or stops with an error. `Settles` says what is
known in both cases, and goes through sequences and loops. `Yields` is for computations in
`Option`, about which nothing is known if they stop.
-/

namespace Pintos

variable {ε α β : Type} {stop : ε → Prop} {post : α → Prop}

/-- If the computation returns, its result satisfies `post`; if it stops, its error
    satisfies `stop`. -/
def Settles (stop : ε → Prop) (post : α → Prop) : Except ε α → Prop
  | .ok a => post a
  | .error e => stop e

namespace Settles

variable {post' : α → Prop} {x : Except ε α}

theorem mono (settles : Settles stop post x)
    (weaker : ∀ a, post a → post' a) : Settles stop post' x := by
  cases x with
  | ok a => exact weaker a settles
  | error e => exact settles

theorem and_of_ok (settles : Settles stop post x)
    (returns : ∀ a, x = .ok a → post' a) : Settles stop (fun a => post a ∧ post' a) x := by
  cases x with
  | ok a => exact ⟨settles, returns a rfl⟩
  | error e => exact settles

theorem and (settles : Settles stop post x)
    (settles' : Settles stop post' x) : Settles stop (fun a => post a ∧ post' a) x := by
  cases x with
  | ok a => exact ⟨settles, settles'⟩
  | error e => exact settles

theorem bind {f : α → Except ε β} {post' : β → Prop}
    (settles : Settles stop post x) (next : ∀ a, post a → Settles stop post' (f a)) :
    Settles stop post' (x >>= f) := by
  cases x with
  | ok a => exact next a settles
  | error e => exact settles

/-- A loop over a list; the invariant is about the elements that are left. -/
theorem foldlM {f : β → α → Except ε β} {I : List α → β → Prop}
    (step : ∀ a rest b, I (a :: rest) b → Settles stop (I rest) (f b a)) (l : List α) (b : β)
    (start : I l b) : Settles stop (I []) (l.foldlM f b) := by
  induction l generalizing b with
  | nil => exact start
  | cons a rest ih => exact (step a rest b start).bind fun b' holds => ih b' holds

/-- A loop that counts up; the invariant is about the turns that were taken. -/
theorem foldlM_range {f : β → Nat → Except ε β} {I : Nat → β → Prop} (n : Nat)
    (step : ∀ k < n, ∀ b, I k b → Settles stop (I (k + 1)) (f b k)) (b : β)
    (start : I 0 b) : Settles stop (I n) ((List.range n).foldlM f b) := by
  induction n with
  | zero => exact start
  | succ n ih =>
    rw [List.range_succ, List.foldlM_append]
    apply (ih fun k small => step k (Nat.lt_succ_of_lt small)).bind
    intro b' holds
    rw [List.foldlM_cons]
    exact (step n (Nat.lt_succ_self n) b' holds).bind fun _ holds => holds

end Settles

/-- If the computation returns, its result satisfies `post`. -/
def Yields (post : α → Prop) : Option α → Prop
  | some a => post a
  | none => True

namespace Yields

variable {x : Option α} {f : α → Option β} {post' : β → Prop}

theorem of_eq {a : α} (yields : Yields post x) (returns : x = some a) : post a := by
  rw [returns] at yields
  exact yields

theorem mono {post' : α → Prop} (yields : Yields post x)
    (weaker : ∀ a, post a → post' a) : Yields post' x := by
  cases x with
  | some a => exact weaker a yields
  | none => trivial

theorem bind (yields : Yields post x) (next : ∀ a, post a → Yields post' (f a)) :
    Yields post' (x >>= f) := by
  cases x with
  | some a => exact next a yields
  | none => trivial

theorem bind_eq (next : ∀ a, x = some a → Yields post' (f a)) : Yields post' (x >>= f) := by
  cases x with
  | some a => exact next a rfl
  | none => trivial

theorem ite {c : Prop} [Decidable c] {y : Option α} (yes : c → Yields post x)
    (no : ¬c → Yields post y) : Yields post (if c then x else y) := by
  by_cases holds : c
  · rw [if_pos holds]
    exact yes holds
  · rw [if_neg holds]
    exact no holds

end Yields

end Pintos
