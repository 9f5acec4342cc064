import Mathlib.Data.List.Basic

/-!
# Logs of events that exclude each other

A log lists events, newest first. `Separated p q` says that events of kind `p`
never follow each other without an event of kind `q` between them: no two
allocations of a sector without a release, no two additions of a name without a
removal. It is kept up one event at a time by looking at the newest event of one
of the two kinds.
-/

namespace Pintos

variable {ε : Type} {p q : ε → Bool} {log : List ε}

/-- Between two events of kind `p` there is one of kind `q`. -/
def Separated (p q : ε → Bool) (log : List ε) : Prop :=
  ∀ later between earlier x y, log = later ++ x :: (between ++ y :: earlier) →
    p x = true → p y = true → ∃ z ∈ between, q z = true

/-- The newest event of one of the two kinds. -/
def lastEvent (p q : ε → Bool) (log : List ε) : Option ε := log.find? fun e => p e || q e

theorem lastEvent_nil : lastEvent p q [] = none := rfl

theorem lastEvent_cons_of_neither {x : ε} (notp : p x = false) (notq : q x = false) :
    lastEvent p q (x :: log) = lastEvent p q log := by
  simp [lastEvent, notp, notq]

theorem lastEvent_cons_of_either {x : ε} (either : p x = true ∨ q x = true) :
    lastEvent p q (x :: log) = some x := by
  rcases either with h | h <;> simp [lastEvent, h]

theorem lastEvent_comm : lastEvent p q log = lastEvent q p log := by
  simp only [lastEvent, Bool.or_comm]

theorem lastEvent_some {e : ε} (last : lastEvent p q log = some e) : p e = true ∨ q e = true := by
  have matching := List.find?_some last
  simpa using matching

theorem Separated.nil : Separated p q [] := by
  intro later between earlier x y shape
  simp at shape

/-- A new event of kind `p` comes after one of kind `q`, or is the first of both. -/
theorem Separated.cons {x : ε} (old : Separated p q log)
    (fresh : p x = true → ∀ e, lastEvent p q log = some e → p e = false) :
    Separated p q (x :: log) := by
  intro later between earlier x' y shape hx hy
  cases later with
  | cons _ rest =>
    simp only [List.cons_append, List.cons.injEq] at shape
    exact old rest between earlier x' y shape.2 hx hy
  | nil =>
    simp only [List.nil_append, List.cons.injEq] at shape
    obtain ⟨rfl, tail⟩ := shape
    cases before : between.find? (fun e => p e || q e) with
    | some e =>
      have last : lastEvent p q log = some e := by
        rw [lastEvent, tail, List.find?_append, before, Option.some_or]
      have notp := fresh hx e last
      rcases lastEvent_some last with hp | hq
      · rw [notp] at hp
        cases hp
      · exact ⟨e, List.mem_of_find?_eq_some before, hq⟩
    | none =>
      -- The older event itself is then the newest one of the two kinds.
      have last : lastEvent p q log = some y := by
        rw [lastEvent, tail, List.find?_append, before, Option.none_or,
          List.find?_cons_of_pos (by simp [hy])]
      rw [fresh hx y last] at hy
      cases hy

end Pintos
