import Mathlib.Data.BitVec

/-!
# Little-endian words

A sequence of 32-bit words laid out in a sequence of bytes, the byte of lowest
significance first, and the two directions of the correspondence.
-/

namespace Pintos

/-- The value of an `int` or `off_t` expression whose exact value is `x`. -/
def int32 (x : Int) : Int := x.bmod (2 ^ 32)

theorem int32_of_bounds {x : Int} (low : -2 ^ 31 ≤ x) (high : x < 2 ^ 31) : int32 x = x := by
  unfold int32
  rw [Int.bmod_def]
  omega

/-- The word whose bytes start at `4 * i`. -/
def wordAt (b : Nat → BitVec 8) (i : Nat) : BitVec 32 :=
  b (4 * i + 3) ++ (b (4 * i + 2) ++ (b (4 * i + 1) ++ b (4 * i)))

/-- The bytes of a sequence of words. -/
def bytesOf (w : Nat → BitVec 32) (k : Nat) : BitVec 8 :=
  (w (k / 4)).extractLsb' (8 * (k % 4)) 8

theorem wordAt_congr {b c : Nat → BitVec 8} {i : Nat}
    (same : ∀ k, 4 * i ≤ k → k < 4 * i + 4 → b k = c k) : wordAt b i = wordAt c i := by
  unfold wordAt
  rw [same (4 * i) (by omega) (by omega), same (4 * i + 1) (by omega) (by omega),
    same (4 * i + 2) (by omega) (by omega), same (4 * i + 3) (by omega) (by omega)]

theorem wordAt_bytesOf (w : Nat → BitVec 32) (i : Nat) : wordAt (bytesOf w) i = w i := by
  have byte : ∀ r < 4, bytesOf w (4 * i + r) = (w i).extractLsb' (8 * r) 8 := by
    intro r hr
    unfold bytesOf
    rw [show (4 * i + r) / 4 = i by omega, show (4 * i + r) % 4 = r by omega]
  unfold wordAt
  rw [byte 3 (by decide), byte 2 (by decide), byte 1 (by decide),
    show bytesOf w (4 * i) = (w i).extractLsb' 0 8 from byte 0 (by decide)]
  apply BitVec.eq_of_getLsbD_eq
  intro k hk
  simp only [BitVec.getLsbD_append, BitVec.getLsbD_extractLsb']
  grind

theorem bytesOf_wordAt (b : Nat → BitVec 8) (k : Nat) : bytesOf (wordAt b) k = b k := by
  have split : k = 4 * (k / 4) + k % 4 := by omega
  unfold bytesOf wordAt
  generalize hi : k / 4 = i
  rw [hi] at split
  have hr : k % 4 < 4 := Nat.mod_lt _ (by decide)
  generalize k % 4 = r at split hr
  subst split
  apply BitVec.eq_of_getLsbD_eq
  intro j hj
  simp only [BitVec.getLsbD_append, BitVec.getLsbD_extractLsb']
  have cases : r = 0 ∨ r = 1 ∨ r = 2 ∨ r = 3 := by omega
  rcases cases with rfl | rfl | rfl | rfl <;> grind

end Pintos
