import Mathlib.Data.List.FinRange
import Mathlib.Data.List.GetD

/-!
# Arrays filled from the front

An array of `n` slots that holds a list: the first slots hold the elements of the
list in order, and the others hold a mark `e` that no element equals. Elements
are added and removed at the end of the list. The last section is about a long
list that is cut into windows, one for each of several such arrays.
-/

namespace Pintos

open Function List

variable {i k m : Nat} {α : Type} {e : α} {n : Nat}

theorem getD_append_singleton_of_ne {xs : List α} (x : α) (ne : i ≠ xs.length) :
    (xs ++ [x]).getD i e = xs.getD i e := by
  by_cases old : i < xs.length
  · exact getD_append _ _ _ _ old
  · rw [getD_eq_default _ _ (by rw [length_append, length_singleton]; omega),
      getD_eq_default _ _ (by omega)]

/-- The slots hold `xs` and the mark `e` after it. -/
structure Holds (e : α) (slots : Fin n → α) (xs : List α) : Prop where
  fits : xs.length ≤ n
  slot : ∀ i : Fin n, slots i = xs.getD i e
  real : ∀ x ∈ xs, x ≠ e

namespace Holds

variable {slots slots' : Fin n → α} {xs : List α} {x : α}

theorem empty : Holds e (fun _ : Fin n => e) [] :=
  ⟨Nat.zero_le n, fun _ => rfl, by simp⟩

theorem eq_mark_iff (held : Holds e slots xs) (i : Fin n) : slots i = e ↔ xs.length ≤ i := by
  rw [held.slot i]
  constructor
  · intro marked
    by_contra inside
    have hi : i.val < xs.length := by omega
    rw [getD_eq_getElem _ _ hi] at marked
    exact held.real _ (getElem_mem hi) marked
  · intro after
    exact getD_eq_default _ _ after

theorem slots_unique (held : Holds e slots xs) (held' : Holds e slots' xs) : slots = slots' := by
  funext i
  rw [held.slot i, held'.slot i]

theorem push (held : Holds e slots xs) (room : xs.length < n) (real : x ≠ e) :
    Holds e (update slots ⟨xs.length, room⟩ x) (xs ++ [x]) := by
  refine ⟨by rw [length_append, length_singleton]; omega, ?_, ?_⟩
  · intro i
    by_cases last : i = ⟨xs.length, room⟩
    · subst last
      simp [getD_eq_getElem?_getD]
    · have ne : i.val ≠ xs.length := fun same => last (Fin.ext same)
      rw [update_of_ne last, held.slot i, getD_append_singleton_of_ne x ne]
  intro y hy
  rcases mem_append.mp hy with hy | hy
  · exact held.real y hy
  · rw [mem_singleton.mp hy]
    exact real

theorem pop (held : Holds e slots (xs ++ [x])) (room : xs.length < n) :
    Holds e (update slots ⟨xs.length, room⟩ e) xs := by
  refine ⟨Nat.le_of_lt room, ?_, fun y hy => held.real y (mem_append_left _ hy)⟩
  intro i
  by_cases last : i = ⟨xs.length, room⟩
  · subst last
    simp [getD_eq_getElem?_getD]
  · have ne : i.val ≠ xs.length := fun same => last (Fin.ext same)
    rw [update_of_ne last, held.slot i, getD_append_singleton_of_ne x ne]

theorem slot_last (held : Holds e slots (xs ++ [x])) (room : xs.length < n) :
    slots ⟨xs.length, room⟩ = x := by
  rw [held.slot]
  simp [getD_eq_getElem?_getD]

end Holds

/-! ## Indices in order -/

theorem finRange_drop (hi : i < n) :
    (List.finRange n).drop i = ⟨i, hi⟩ :: (List.finRange n).drop (i + 1) := by
  rw [drop_eq_getElem_cons (by simpa using hi)]
  simp

theorem finRange_take_reverse (hk : k < n) :
    ((List.finRange n).take (k + 1)).reverse = ⟨k, hk⟩ :: ((List.finRange n).take k).reverse := by
  rw [take_succ_eq_append_getElem (by simpa using hk)]
  simp

theorem finRange_take_self : (List.finRange n).take n = List.finRange n := by
  apply take_of_length_le
  simp

/-! ## Windows of a list -/

/-- The part of a list that starts at `start` and has at most `len` elements. -/
def window (xs : List α) (start len : Nat) : List α := (xs.drop start).take len

variable {xs ys : List α} {start len : Nat}

theorem length_window : (window xs start len).length = min len (xs.length - start) := by
  simp [window]

theorem window_getD (hi : i < len) : (window xs start len).getD i e = xs.getD (start + i) e := by
  simp [window, getD_eq_getElem?_getD, List.getElem?_take_of_lt hi]

theorem window_eq_nil (after : xs.length ≤ start) : window xs start len = [] := by
  simp [window, drop_eq_nil_of_le after]

theorem window_append_of_full (full : start + len ≤ xs.length) :
    window (xs ++ ys) start len = window xs start len := by
  unfold window
  rw [drop_append_of_le_length (by omega), take_append_of_le_length]
  rw [length_drop]
  omega

theorem window_append (reach : start ≤ xs.length)
    (room : (window xs start len ++ ys).length ≤ len) :
    window (xs ++ ys) start len = window xs start len ++ ys := by
  rw [length_append, length_window] at room
  unfold window
  rw [drop_append_of_le_length reach, take_append, length_drop,
    take_of_length_le (l := ys) (by omega)]

theorem window_append_of_before (room : ys = [] ∨ (xs ++ ys).length ≤ start) :
    window (xs ++ ys) start len = window xs start len := by
  rcases room with rfl | before
  · rw [append_nil]
  · rw [window_eq_nil before, window_eq_nil (by rw [length_append] at before; omega)]

/-- Where the list ends after an addition to the window at `start`. -/
theorem eq_nil_or_length_le (room : (window xs start len ++ ys).length ≤ len) :
    ys = [] ∨ (xs ++ ys).length ≤ start + len := by
  rw [length_append, length_window] at room
  cases ys with
  | nil => exact Or.inl rfl
  | cons y ys =>
    right
    rw [length_cons] at room
    rw [length_append, length_cons]
    omega

theorem window_take : window (xs.take m) start len = (window xs start len).take (m - start) := by
  unfold window
  rw [drop_take, take_take, take_take, Nat.min_comm]

theorem window_append_drop : window xs start len ++ xs.drop (start + len) = xs.drop start := by
  unfold window
  rw [← drop_drop, take_append_drop]

theorem window_take_of_le (behind : start + len ≤ m) :
    window (xs.take m) start len = window xs start len := by
  rw [window_take]
  apply take_of_length_le
  rw [length_window]
  omega

theorem mem_drop_iff (old : m ≤ k) {x : α} :
    x ∈ xs.drop m ↔ x ∈ (xs.take k).drop m ∨ x ∈ xs.drop k := by
  have parts : xs.drop m = (xs.take k).drop m ++ xs.drop k := by
    rw [drop_take, show xs.drop k = (xs.drop m).drop (k - m) by
      rw [drop_drop, Nat.add_sub_cancel' old], take_append_drop]
  rw [parts, mem_append]

end Pintos
