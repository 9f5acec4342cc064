import Mathlib.Data.List.Range

/-!
# Bitmaps

Model of `src/lib/kernel/bitmap.c`. The elements of the C array are seen as one
sequence of bits; bits at or after `bitCnt` exist in the last element but have
no meaning.
-/

namespace Pintos

open List

variable {b : Bitmap} {start cnt idx : Nat} {value : Bool}

/-- `struct bitmap` (`bitmap.c:25-29`). -/
structure Bitmap where
  bitCnt : Nat
  bits : Nat → Bool

/-- `bitmap_set_multiple` (`bitmap.c:216-227`). -/
def bitmapSetMultiple (b : Bitmap) (start cnt : Nat) (value : Bool) : Bitmap :=
  { b with bits := fun i => if start ≤ i ∧ i < start + cnt then value else b.bits i }

/-- `bitmap_contains` (`bitmap.c:249-263`). -/
def bitmapContains (b : Bitmap) (start cnt : Nat) (value : Bool) : Bool :=
  (List.range cnt).any fun i => b.bits (start + i) == value

/-- `bitmap_all` (`bitmap.c:283-287`). -/
def bitmapAll (b : Bitmap) (start cnt : Nat) : Bool :=
  !bitmapContains b start cnt false

/-- `bitmap_scan` (`bitmap.c:295-310`); `none` is `BITMAP_ERROR`. -/
def bitmapScan (b : Bitmap) (start cnt : Nat) (value : Bool) : Option Nat :=
  if cnt ≤ b.bitCnt then
    (List.range' start (b.bitCnt - cnt + 1 - start)).find? fun i => !bitmapContains b i cnt !value
  else none

/-- `bitmap_scan_and_flip` (`bitmap.c:318-325`). -/
def bitmapScanAndFlip (b : Bitmap) (start cnt : Nat) (value : Bool) : Option Nat × Bitmap :=
  match bitmapScan b start cnt value with
  | none => (none, b)
  | some idx => (some idx, bitmapSetMultiple b idx cnt !value)

@[simp] theorem bitmapSetMultiple_bitCnt (b : Bitmap) (start cnt : Nat) (value : Bool) :
    (bitmapSetMultiple b start cnt value).bitCnt = b.bitCnt := rfl

theorem bitmapSetMultiple_bits (b : Bitmap) (start cnt : Nat) (value : Bool) (i : Nat) :
    (bitmapSetMultiple b start cnt value).bits i =
      if start ≤ i ∧ i < start + cnt then value else b.bits i := rfl

theorem bitmapContains_eq_false : bitmapContains b start cnt value = false ↔
      ∀ i, start ≤ i → i < start + cnt → b.bits i = !value := by
  simp only [bitmapContains, any_eq_false, mem_range, beq_iff_eq, Bool.eq_not]
  constructor
  · intro absent i low high
    have := absent (i - start) (by omega)
    rwa [show start + (i - start) = i by omega] at this
  · intro absent i hi
    exact absent (start + i) (by omega) (by omega)

theorem bitmapAll_iff :
    bitmapAll b start cnt = true ↔ ∀ i, start ≤ i → i < start + cnt → b.bits i = true := by
  rw [bitmapAll, Bool.not_eq_true', bitmapContains_eq_false]
  rfl

theorem bitmapScan_some (found : bitmapScan b start cnt value = some idx) :
    start ≤ idx ∧ idx + cnt ≤ b.bitCnt ∧ ∀ i, idx ≤ i → i < idx + cnt → b.bits i = value := by
  unfold bitmapScan at found
  split at found
  · rename_i small
    have mem := mem_of_find?_eq_some found
    have matching := List.find?_some found
    simp only [Bool.not_eq_true', bitmapContains_eq_false, Bool.not_not] at matching
    rw [mem_range'_1] at mem
    exact ⟨mem.1, by omega, matching⟩
  · cases found

theorem bitmapScan_none (absent : bitmapScan b start cnt value = none) (low : start ≤ idx)
    (high : idx + cnt ≤ b.bitCnt) : ∃ i, idx ≤ i ∧ i < idx + cnt ∧ b.bits i = !value := by
  unfold bitmapScan at absent
  rw [if_pos (by omega)] at absent
  have miss := List.find?_eq_none.mp absent idx (by rw [mem_range'_1]; omega)
  by_contra none
  refine miss ?_
  simp only [Bool.not_eq_true', bitmapContains_eq_false, Bool.not_not]
  intro i hlow hhigh
  by_contra ne
  exact none ⟨i, hlow, hhigh, Bool.eq_not_of_ne ne⟩

end Pintos
