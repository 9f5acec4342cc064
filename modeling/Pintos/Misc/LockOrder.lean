import Mathlib.Logic.Relation

/-!
# Lock order

Threads wait for locks that other threads hold. If every thread waits only for a lock that
ranks above all the locks it holds, no threads wait for each other in a circle.
-/

namespace Pintos

universe u v
variable {T : Type u} {L : Type v}

section LockOrder

variable (wants : T → Option L) (holder : L → Option T)

/-- The thread `t` waits for a lock that `u` holds. -/
def WaitsFor (t u : T) : Prop := ∃ l, wants t = some l ∧ holder l = some u

/-- Some threads wait for each other in a circle. -/
def Deadlocked : Prop := ∃ t, Relation.TransGen (WaitsFor wants holder) t t

/-- A thread waits for a lock above those it holds. -/
def Ordered (rank : L → Nat) : Prop :=
  ∀ t l l', wants t = some l → holder l' = some t → rank l' < rank l

end LockOrder

variable {wants : T → Option L} {holder : L → Option T} {rank : L → Nat} {t u : T}

theorem Ordered.le_of_waits (ordered : Ordered wants holder rank) {l : L} (wanted : wants t = some l)
    (waits : Relation.TransGen (WaitsFor wants holder) t u) :
    ∃ l', holder l' = some u ∧ rank l ≤ rank l' := by
  induction waits with
  | single edge =>
    obtain ⟨l', wanted', held⟩ := edge
    cases wanted.symm.trans wanted'
    exact ⟨l, held, Nat.le_refl _⟩
  | tail _ edge ih =>
    obtain ⟨l', held, le⟩ := ih
    obtain ⟨l'', wanted'', held''⟩ := edge
    have lt := ordered _ _ _ wanted'' held
    exact ⟨l'', held'', by omega⟩

theorem Ordered.not_deadlocked (ordered : Ordered wants holder rank) : ¬Deadlocked wants holder := by
  rintro ⟨t, circle⟩
  obtain ⟨u, ⟨l, wanted, -⟩, -⟩ := Relation.TransGen.head'_iff.mp circle
  obtain ⟨l', held, le⟩ := ordered.le_of_waits wanted circle
  have lt := ordered t l l' wanted held
  omega

theorem deadlocked_of_pair (first : WaitsFor wants holder t u) (second : WaitsFor wants holder u t) :
    Deadlocked wants holder := ⟨t, .tail (.single first) second⟩

end Pintos
