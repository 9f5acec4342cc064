import Mathlib.Data.List.Basic

/-!
# Ring buffers

A buffer of `n` cells that is written at `head` and read at `tail`, both of which go round. One
cell stays free, so that `head = tail` means that nothing is in it. `ringContents` is what is in
the buffer, the oldest element first.
-/

namespace Pintos

open List

variable {α : Type*} {n head tail : Nat}

/-- The position after a position. -/
def ringNext (n i : Nat) : Nat := (i + 1) % n

/-- The number of elements in the buffer. -/
def ringCount (n head tail : Nat) : Nat := (head + (n - tail)) % n

def ringContents (n : Nat) (buf : Nat → α) (head tail : Nat) : List α :=
  (List.range (ringCount n head tail)).map fun i => buf ((tail + i) % n)

theorem mod_of_lt_two_mul {i : Nat} (once : i < 2 * n) :
    i % n = if i < n then i else i - n := by
  split
  · rename_i small
    exact Nat.mod_eq_of_lt small
  · rename_i large
    rw [Nat.mod_eq_sub_mod (Nat.not_lt.mp large), Nat.mod_eq_of_lt (by omega)]

theorem ringNext_lt (pos : 0 < n) (i : Nat) : ringNext n i < n := Nat.mod_lt _ pos

theorem ringCount_eq (headLt : head < n) (tailLt : tail < n) :
    ringCount n head tail = if tail ≤ head then head - tail else head + n - tail := by
  unfold ringCount
  rw [mod_of_lt_two_mul (by omega)]
  split <;> split <;> omega

theorem length_ringContents (buf : Nat → α) :
    (ringContents n buf head tail).length = ringCount n head tail := by
  simp [ringContents]

theorem length_ringContents_lt (pos : 0 < n) (buf : Nat → α) :
    (ringContents n buf head tail).length < n := by
  rw [length_ringContents]
  exact Nat.mod_lt _ pos

variable (headLt : head < n) (tailLt : tail < n)
include headLt tailLt

theorem ringCount_push (free : ringNext n head ≠ tail) :
    ringCount n (ringNext n head) tail = ringCount n head tail + 1 := by
  have nextLt : ringNext n head < n := ringNext_lt (by omega) head
  rw [ringCount_eq nextLt tailLt, ringCount_eq headLt tailLt]
  have isNext : ringNext n head = if head + 1 < n then head + 1 else head + 1 - n :=
    mod_of_lt_two_mul (by omega)
  split at isNext <;> split <;> split <;> omega

theorem ringCount_pop (filled : head ≠ tail) :
    ringCount n head tail = ringCount n head (ringNext n tail) + 1 := by
  have nextLt : ringNext n tail < n := ringNext_lt (by omega) tail
  rw [ringCount_eq headLt nextLt, ringCount_eq headLt tailLt]
  have isNext : ringNext n tail = if tail + 1 < n then tail + 1 else tail + 1 - n :=
    mod_of_lt_two_mul (by omega)
  split at isNext <;> split <;> split <;> omega

/-- The last element is in front of `head`. -/
theorem add_ringCount : (tail + ringCount n head tail) % n = head := by
  rw [ringCount_eq headLt tailLt]
  split
  · rw [show tail + (head - tail) = head by omega, Nat.mod_eq_of_lt headLt]
  · rw [show tail + (head + n - tail) = head + n by omega, Nat.add_mod_right,
      Nat.mod_eq_of_lt headLt]

/-- The cells in use are not the one at `head`. -/
theorem add_ne_head {i : Nat} (used : i < ringCount n head tail) : (tail + i) % n ≠ head := by
  rw [ringCount_eq headLt tailLt] at used
  rw [mod_of_lt_two_mul (by split at used <;> omega)]
  split at used <;> split <;> omega

theorem ringContents_push (free : ringNext n head ≠ tail) (buf : Nat → α) (b : α) :
    ringContents n (Function.update buf head b) (ringNext n head) tail =
      ringContents n buf head tail ++ [b] := by
  unfold ringContents
  rw [ringCount_push headLt tailLt free, range_succ, map_append, map_singleton,
    add_ringCount headLt tailLt, Function.update_self]
  congr 1
  apply map_congr_left
  intro i mem
  exact Function.update_of_ne (add_ne_head headLt tailLt (mem_range.mp mem)) ..

theorem ringContents_pop (filled : head ≠ tail) (buf : Nat → α) :
    ringContents n buf head tail = buf tail :: ringContents n buf head (ringNext n tail) := by
  unfold ringContents
  rw [ringCount_pop headLt tailLt filled, range_succ_eq_map, map_cons, map_map,
    Nat.add_zero, Nat.mod_eq_of_lt tailLt]
  congr 1
  apply map_congr_left
  intro i _
  show buf ((tail + (i + 1)) % n) = buf (((tail + 1) % n + i) % n)
  rw [Nat.mod_add_mod, Nat.add_right_comm, Nat.add_assoc]

end Pintos
