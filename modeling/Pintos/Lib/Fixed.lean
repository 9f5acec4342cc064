import Pintos.Misc.Words

/-!
# Fixed-point arithmetic

Model of `src/lib/kernel/fixed.h`: numbers in 17.14 format, in 32 bits. An operation takes what a
value that need not fit into 32 bits becomes: `wraps` is what the processor makes of it, `fits`
has no result where there is an overflow. A division by zero has no result either.
-/

namespace Pintos

/-- The value modulo `2 ^ 32`. -/
def wraps (x : Int) : Option Int := some (int32 x)

/-- The value, if it is one of 32 bits. -/
def fits (x : Int) : Option Int := if -2 ^ 31 ≤ x ∧ x < 2 ^ 31 then some x else none

/-- No change to values of 32 bits. -/
def Exact (fit : Int → Option Int) : Prop := ∀ x, -2 ^ 31 ≤ x → x < 2 ^ 31 → fit x = some x

theorem fits_exact : Exact fits := fun _ low high => if_pos ⟨low, high⟩

theorem wraps_exact : Exact wraps := fun _ low high => congrArg some (int32_of_bounds low high)

/-- `FPT_F`, which stands for one. -/
def fptF : Int := 16384

section

variable (fit : Int → Option Int)

def intToFp (n : Int) : Option Int := fit (n * fptF)

/-- `FP_TO_INT`, which truncates toward zero. -/
def fpToInt (x : Int) : Int := x.tdiv fptF

def fpToIntRound (x : Int) : Option Int := do
  let shifted ← fit (x + if 0 ≤ x then fptF / 2 else -fptF / 2)
  some (shifted.tdiv fptF)

def fpAdd (x y : Int) : Option Int := fit (x + y)

def fpAddInt (x n : Int) : Option Int := do
  let y ← fit (n * fptF)
  fit (x + y)

/-- `FP_MUL`; the product of two numbers of 32 bits fits into 64. -/
def fpMul (x y : Int) : Option Int := fit ((x * y).tdiv fptF)

def fpMulInt (x n : Int) : Option Int := fit (x * n)

def fpDiv (x y : Int) : Option Int := if y = 0 then none else fit ((x * fptF).tdiv y)

def fpDivInt (x n : Int) : Int := x.tdiv n

end

end Pintos
