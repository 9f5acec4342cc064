import Mathlib.Tactic.Ring

/-!
# 64-bit division

Model of `src/lib/arithmetic.c` on machine words. The quotient by a divisor of more than 32 bits
is taken with the upper word of the divisor, shifted to the left until its first bit is set, and
is at most one too large.
-/

namespace Pintos

open BitVec Nat

/-- `divl` (`arithmetic.c:25-35`); `none` is the divide error of the instruction. -/
def divl (n : BitVec 64) (d : BitVec 32) : Option (BitVec 32) :=
  if d ≠ 0 ∧ n.toNat / d.toNat < 2 ^ 32 then some (.ofNat 32 (n.toNat / d.toNat)) else none

/-- One of the tests of `nlz`; the last one of them has no need to shift. -/
def nlzStep (limit : BitVec 32) (k : Nat) (r : Nat × BitVec 32) : Nat × BitVec 32 :=
  if r.2 ≤ limit then (r.1 + k, r.2 <<< k) else r

/-- `nlz` (`arithmetic.c:39-70`). -/
def nlz (x : BitVec 32) : Nat :=
  let r := nlzStep 0x0000FFFF 16 (0, x)
  let r := nlzStep 0x00FFFFFF 8 r
  let r := nlzStep 0x0FFFFFFF 4 r
  let r := nlzStep 0x3FFFFFFF 2 r
  (nlzStep 0x7FFFFFFF 1 r).1

/-- `udiv64` (`arithmetic.c:74-125`). -/
def udiv64 (n d : BitVec 64) : Option (BitVec 64) :=
  if d >>> 32 = 0 then do
    let b := (1 : BitVec 64) <<< 32
    let n1 := (n >>> 32).setWidth 32
    let n0 := n.setWidth 32
    let d0 := d.setWidth 32
    let q ← divl (b * (n1 % d0).setWidth 64 + n0.setWidth 64) d0
    some (q.setWidth 64 + b * (n1 / d0).setWidth 64)
  else if n < d then some 0
  else do
    let d1 := (d >>> 32).setWidth 32
    let s := nlz d1
    let q ← divl (n >>> 1) (((d <<< s) >>> 32).setWidth 32)
    let q := (q >>> (31 - s)).setWidth 64
    some (if n - (q - 1) * d < d then q - 1 else q)

/-- `umod64` (`arithmetic.c:129-133`), which returns a `uint32_t`. -/
def umod64 (n d : BitVec 64) : Option (BitVec 32) := do
  let q ← udiv64 n d
  some ((n - d * q).setWidth 32)

/-- `sdiv64` (`arithmetic.c:137-144`). -/
def sdiv64 (n d : BitVec 64) : Option (BitVec 64) := do
  let nAbs := if 0 ≤ n.toInt then n else -n
  let dAbs := if 0 ≤ d.toInt then d else -d
  let qAbs ← udiv64 nAbs dAbs
  some (if n.toInt < 0 ↔ d.toInt < 0 then qAbs else -qAbs)

/-- `smod64` (`arithmetic.c:148-152`), which returns an `int32_t`. -/
def smod64 (n d : BitVec 64) : Option (BitVec 32) := do
  let q ← sdiv64 n d
  some ((n - d * q).setWidth 32)

/-- `__umoddi3` (`arithmetic.c:183-187`). -/
def umoddi3 (n d : BitVec 64) : Option (BitVec 64) := (umod64 n d).map (·.setWidth 64)

/-- `__moddi3` (`arithmetic.c:169-173`). -/
def moddi3 (n d : BitVec 64) : Option (BitVec 64) := (smod64 n d).map (·.signExtend 64)

theorem toNat_shift (x : BitVec 64) (k : Nat) : (x >>> k).toNat = x.toNat / 2 ^ k := by
  rw [toNat_ushiftRight, shiftRight_eq_div_pow]

/-- The upper word. -/
theorem toNat_high (x : BitVec 64) : ((x >>> 32).setWidth 32).toNat = x.toNat / 2 ^ 32 := by
  have := x.isLt
  rw [toNat_setWidth, toNat_shift]
  omega

theorem divl_eq {n : BitVec 64} {d : BitVec 32} (pos : 0 < d.toNat)
    (fits : n.toNat / d.toNat < 2 ^ 32) : divl n d = some (.ofNat 32 (n.toNat / d.toNat)) := by
  refine if_pos ⟨?_, fits⟩
  rintro rfl
  exact absurd pos (by decide)

/-! ## Leading zeros -/

/-- The word has been shifted so far that its first bit is among the upper ones. -/
structure Shifted (x : BitVec 32) (high : Nat) (r : Nat × BitVec 32) : Prop where
  word : r.2.toNat = x.toNat * 2 ^ r.1
  high : high ≤ r.2.toNat

theorem Shifted.step {x : BitVec 32} {high : Nat} {r : Nat × BitVec 32}
    (shifted : Shifted x high r) (limit : BitVec 32) (k : Nat)
    (isLimit : (limit.toNat + 1) * 2 ^ k = 2 ^ 32) (enough : limit.toNat + 1 ≤ high * 2 ^ k) :
    Shifted x (limit.toNat + 1) (nlzStep limit k r) := by
  unfold nlzStep
  split
  · rename_i low
    have low : r.2.toNat + 1 ≤ limit.toNat + 1 := Nat.succ_le_succ low
    have fits : r.2.toNat * 2 ^ k < 2 ^ 32 :=
      isLimit ▸ Nat.mul_lt_mul_of_pos_right low (Nat.two_pow_pos k)
    have word : (r.2 <<< k).toNat = r.2.toNat * 2 ^ k := by
      rw [toNat_shiftLeft, Nat.shiftLeft_eq, Nat.mod_eq_of_lt fits]
    refine ⟨?_, ?_⟩
    · rw [word, shifted.word, Nat.pow_add, Nat.mul_assoc]
    · rw [word]
      exact enough.trans (Nat.mul_le_mul_right _ shifted.high)
  · rename_i above
    exact ⟨shifted.word, BitVec.lt_def.mp (BitVec.not_le.mp above)⟩

/-- Shifted by `nlz`, a word has its first bit set. -/
theorem nlz_spec {x : BitVec 32} (pos : 0 < x.toNat) :
    nlz x ≤ 31 ∧ 2 ^ 31 ≤ x.toNat * 2 ^ nlz x ∧ x.toNat * 2 ^ nlz x < 2 ^ 32 := by
  have start : Shifted x 1 (0, x) := ⟨(mul_one _).symm, pos⟩
  have shifted := ((((start.step 0x0000FFFF 16 rfl (by decide)).step 0x00FFFFFF 8 rfl
    (by decide)).step 0x0FFFFFFF 4 rfl (by decide)).step 0x3FFFFFFF 2 rfl (by decide)).step
    0x7FFFFFFF 1 rfl (by decide)
  have upper : x.toNat * 2 ^ nlz x < 2 ^ 32 := shifted.word ▸ BitVec.isLt _
  have few : 2 ^ nlz x < 2 ^ 32 := (Nat.le_mul_of_pos_left _ pos).trans_lt upper
  exact ⟨Nat.le_of_lt_succ ((Nat.pow_lt_pow_iff_right (by decide)).mp few),
    shifted.word ▸ shifted.high, upper⟩

/-! ## The quotients -/

/-- The quotient by `v * 2 ^ (32 - s)`, where `v` are the first 32 bits of the divisor, is right
    or too large by one. -/
theorem quotient_approx {n d v s : Nat} (small : n < 2 ^ 64) (few : s ≤ 31)
    (lower : v * 2 ^ 32 ≤ d * 2 ^ s) (upper : d * 2 ^ s < (v + 1) * 2 ^ 32) (norm : 2 ^ 31 ≤ v) :
    n / d ≤ n / 2 / v / 2 ^ (31 - s) ∧ n / 2 / v / 2 ^ (31 - s) ≤ n / d + 1 := by
  obtain ⟨P, isP⟩ : ∃ P, P = 2 ^ s := ⟨_, rfl⟩
  obtain ⟨Q, isQ⟩ : ∃ Q, Q = 2 ^ (32 - s) := ⟨_, rfl⟩
  have posP : 0 < P := isP ▸ Nat.two_pow_pos s
  have whole : Q * P = 2 ^ 32 := by
    rw [isP, isQ, ← Nat.pow_add, Nat.sub_add_cancel (by omega)]
  have half : 2 * 2 ^ (31 - s) = Q := by
    rw [isQ, ← Nat.pow_succ', show (31 - s).succ = 32 - s by omega]
  have quotient : n / 2 / v / 2 ^ (31 - s) = n / (v * Q) := by
    rw [Nat.div_div_eq_div_mul, Nat.div_div_eq_div_mul, Nat.mul_left_comm, half]
  rw [← isP, ← whole, ← Nat.mul_assoc] at lower upper
  have below : v * Q ≤ d := Nat.le_of_mul_le_mul_right lower posP
  have above : d < (v + 1) * Q := Nat.lt_of_mul_lt_mul_right upper
  have large : 2 ^ 31 * Q ≤ v * Q := Nat.mul_le_mul_right Q norm
  have posQ : 2 ≤ Q := by
    have := Nat.two_pow_pos (31 - s)
    omega
  have times : n / d < 2 * P := by
    rw [Nat.div_lt_iff_lt_mul (by omega)]
    calc n < 2 * P * (2 ^ 31 * Q) := by
          rw [show 2 * P * (2 ^ 31 * Q) = 2 ^ 32 * (Q * P) by ring, whole]
          exact small
      _ ≤ 2 * P * d := Nat.mul_le_mul_left _ (large.trans below)
  -- each of the `n / d + 1` divisors is short of less than `Q`
  have short : (Q - 1) * (2 * P) ≤ 2 ^ 31 * Q := by
    rw [Nat.sub_mul, show Q * (2 * P) = 2 * (Q * P) by ring, whole]
    rcases (show Q = 2 ∨ Q = 3 ∨ 4 ≤ Q by omega) with rfl | rfl | many <;> omega
  rw [quotient]
  refine ⟨Nat.div_le_div_left below (by omega), ?_⟩
  apply Nat.le_of_lt_succ
  show n / (v * Q) < n / d + 2
  rw [Nat.div_lt_iff_lt_mul (by omega)]
  calc n < d * (n / d + 1) := Nat.lt_mul_div_succ n (by omega)
    _ ≤ (v * Q + (Q - 1)) * (n / d + 1) := by
      rw [Nat.succ_mul] at above
      exact Nat.mul_le_mul_right _ (by omega)
    _ = v * Q * (n / d + 1) + (Q - 1) * (n / d + 1) := Nat.add_mul ..
    _ ≤ v * Q * (n / d + 1) + v * Q := by
      apply Nat.add_le_add_left
      exact (Nat.mul_le_mul_left _ times).trans (short.trans large)
    _ = (n / d + 2) * (v * Q) := by ring

/-- `udiv64` for a divisor of 32 bits. -/
theorem udiv64_low {n d : BitVec 64} (pos : 0 < d.toNat) (low : d >>> 32 = 0) :
    udiv64 n d = some (n / d) := by
  have small := n.isLt
  have low32 : d.toNat < 2 ^ 32 := by
    have shifted := congrArg BitVec.toNat low
    rw [toNat_shift] at shifted
    exact lt_of_div_eq_zero (by decide) shifted
  have d0 : (d.setWidth 32).toNat = d.toNat := by rw [toNat_setWidth, mod_eq_of_lt low32]
  have n1 := toNat_high n
  obtain ⟨r, isR⟩ : ∃ r, r = n.toNat / 2 ^ 32 % d.toNat := ⟨_, rfl⟩
  have less : r < d.toNat := isR ▸ mod_lt _ pos
  have base : ((1 : BitVec 64) <<< 32).toNat = 2 ^ 32 := rfl
  have word : ((1 : BitVec 64) <<< 32 * ((n >>> 32).setWidth 32 % d.setWidth 32).setWidth 64 +
      (n.setWidth 32).setWidth 64).toNat = 2 ^ 32 * r + n.toNat % 2 ^ 32 := by
    have rem : ((n >>> 32).setWidth 32 % d.setWidth 32).toNat = r := by
      rw [toNat_umod, n1, d0, isR]
    simp only [toNat_add, toNat_mul, toNat_setWidth, rem, base]
    omega
  have total : n.toNat = 2 ^ 32 * r + n.toNat % 2 ^ 32 +
      d.toNat * (2 ^ 32 * (n.toNat / 2 ^ 32 / d.toNat)) := by
    have upper := mod_add_div (n.toNat / 2 ^ 32) d.toNat
    rw [mul_left_comm]
    omega
  have quotient : n.toNat / d.toNat =
      (2 ^ 32 * r + n.toNat % 2 ^ 32) / d.toNat + 2 ^ 32 * (n.toNat / 2 ^ 32 / d.toNat) := by
    rw [← add_mul_div_left _ _ pos, ← total]
  have fits : (2 ^ 32 * r + n.toNat % 2 ^ 32) / d.toNat < 2 ^ 32 := by
    rw [div_lt_iff_lt_mul pos]
    omega
  have bound := div_le_self n.toNat d.toNat
  simp only [udiv64, low, if_true, divl_eq (d0 ▸ pos) (by rwa [word, d0]), word, d0,
    Option.bind_eq_bind, Option.bind_some, Option.some.injEq]
  apply eq_of_toNat_eq
  simp only [toNat_add, toNat_mul, toNat_setWidth, toNat_udiv, toNat_ofNat, n1, d0, base]
  rw [quotient] at bound ⊢
  clear quotient total word
  generalize (2 ^ 32 * r + n.toNat % 2 ^ 32) / d.toNat = low at fits bound ⊢
  generalize n.toNat / 2 ^ 32 / d.toNat = high at bound ⊢
  omega

/-- The correction of a quotient that may be too large by one. -/
theorem quotient_correct {n d q : BitVec 64} (more : d.toNat ≤ n.toNat) (pos : 0 < d.toNat)
    (least : n.toNat / d.toNat ≤ q.toNat) (most : q.toNat ≤ n.toNat / d.toNat + 1) :
    (if n - (q - 1) * d < d then q - 1 else q) = n / d := by
  have small := n.isLt
  have one : 1 ≤ n.toNat / d.toNat := div_pos more pos
  have quotient := div_add_mod n.toNat d.toNat
  have rest := mod_lt n.toNat pos
  have before : (q - 1).toNat = q.toNat - 1 :=
    toNat_sub_of_le (BitVec.le_def.mpr (one.trans least))
  have product : (q.toNat - 1) * d.toNat ≤ n.toNat :=
    (mul_le_mul_right _ (sub_le_of_le_add most)).trans (div_mul_le_self ..)
  have times : ((q - 1) * d).toNat = (q.toNat - 1) * d.toNat := by
    rw [toNat_mul, before, mod_eq_of_lt (product.trans_lt small)]
  have left : (n - (q - 1) * d).toNat = n.toNat - (q.toNat - 1) * d.toNat := by
    rw [toNat_sub_of_le (BitVec.le_def.mpr (times ▸ product)), times]
  have test : n - (q - 1) * d < d ↔ n.toNat - (q.toNat - 1) * d.toNat < d.toNat := by
    rw [BitVec.lt_def, left]
  apply eq_of_toNat_eq
  rw [toNat_udiv]
  rcases (show q.toNat = n.toNat / d.toNat ∨ q.toNat = n.toNat / d.toNat + 1 by omega) with
    exact | above
  · have whole : (q.toNat - 1) * d.toNat + d.toNat = d.toNat * (n.toNat / d.toNat) := by
      rw [← Nat.succ_mul, exact, Nat.succ_eq_add_one, Nat.sub_add_cancel one, Nat.mul_comm]
    rw [if_neg (mt test.mp (by omega)), exact]
  have whole : (q.toNat - 1) * d.toNat = d.toNat * (n.toNat / d.toNat) := by
    rw [above, Nat.add_sub_cancel, Nat.mul_comm]
  rw [if_pos (test.mpr (by omega)), before, above, Nat.add_sub_cancel]

/-- `udiv64` for a larger divisor. -/
theorem udiv64_high {n d : BitVec 64} (high : d >>> 32 ≠ 0) : udiv64 n d = some (n / d) := by
  have small := n.isLt
  unfold udiv64
  rw [if_neg high]
  split
  · rename_i less
    rw [Option.some.injEq, udiv_def, div_eq_of_lt less]
    rfl
  rename_i more
  have more : d.toNat ≤ n.toNat := not_lt.mp more
  have d1 := toNat_high d
  have pos : 0 < ((d >>> 32).setWidth 32).toNat := by
    rw [d1]
    refine pos_of_ne_zero fun zero => high (eq_of_toNat_eq ?_)
    rw [toNat_shift, zero]
    rfl
  obtain ⟨few, norm, fits⟩ := nlz_spec pos
  dsimp only
  generalize nlz ((d >>> 32).setWidth 32) = s at few norm fits ⊢
  rw [d1] at norm fits
  have room : d.toNat * 2 ^ s < 2 ^ 64 := by
    have whole : 2 ^ (32 - s) * 2 ^ s = 2 ^ 32 := by
      rw [← Nat.pow_add, Nat.sub_add_cancel (by omega)]
    have bound := (Nat.div_lt_iff_lt_mul (by decide)).mp
      (Nat.lt_of_mul_lt_mul_right (fits.trans_eq whole.symm))
    calc d.toNat * 2 ^ s < 2 ^ (32 - s) * 2 ^ 32 * 2 ^ s :=
          Nat.mul_lt_mul_of_pos_right bound (Nat.two_pow_pos s)
      _ = 2 ^ 64 := by rw [Nat.mul_right_comm, whole, ← Nat.pow_add]
  have v : (((d <<< s) >>> 32).setWidth 32).toNat = d.toNat * 2 ^ s / 2 ^ 32 := by
    rw [toNat_high, toNat_shiftLeft, Nat.shiftLeft_eq, Nat.mod_eq_of_lt room]
  have normV : 2 ^ 31 ≤ d.toNat * 2 ^ s / 2 ^ 32 := by
    rw [Nat.le_div_iff_mul_le (by decide)]
    calc 2 ^ 31 * 2 ^ 32 ≤ d.toNat / 2 ^ 32 * 2 ^ s * 2 ^ 32 := Nat.mul_le_mul_right _ norm
      _ = d.toNat / 2 ^ 32 * 2 ^ 32 * 2 ^ s := Nat.mul_right_comm ..
      _ ≤ d.toNat * 2 ^ s := Nat.mul_le_mul_right _ (Nat.div_mul_le_self ..)
  have above := Nat.lt_mul_div_succ (d.toNat * 2 ^ s) (Nat.two_pow_pos 32)
  rw [Nat.mul_comm (2 ^ 32)] at above
  obtain ⟨least, most⟩ := quotient_approx small few (Nat.div_mul_le_self ..) above normV
  rw [← v] at normV least most
  have half : (n >>> 1).toNat = n.toNat / 2 := toNat_shift n 1
  rw [← half] at least most
  have quotient : (n >>> 1).toNat / (((d <<< s) >>> 32).setWidth 32).toNat < 2 ^ 32 := by
    rw [div_lt_iff_lt_mul (by omega)]
    omega
  rw [divl_eq (by omega) quotient]
  simp only [Option.bind_eq_bind, Option.bind_some, Option.some.injEq]
  have word : ((BitVec.ofNat 32 ((n >>> 1).toNat / (((d <<< s) >>> 32).setWidth 32).toNat) >>>
      (31 - s)).setWidth 64).toNat =
      (n >>> 1).toNat / (((d <<< s) >>> 32).setWidth 32).toNat / 2 ^ (31 - s) := by
    rw [toNat_setWidth, toNat_ushiftRight, toNat_ofNat,
      shiftRight_eq_div_pow, mod_eq_of_lt quotient]
    exact mod_eq_of_lt ((div_le_self ..).trans_lt (quotient.trans (by decide)))
  exact quotient_correct more (by omega) (word ▸ least) (word ▸ most)

theorem udiv64_eq (n : BitVec 64) {d : BitVec 64} (nonzero : d ≠ 0) :
    udiv64 n d = some (n / d) := by
  have pos : 0 < d.toNat := pos_of_ne_zero fun zero => nonzero (eq_of_toNat_eq zero)
  by_cases low : d >>> 32 = 0
  · exact udiv64_low pos low
  · exact udiv64_high low

theorem sdiv64_eq (n : BitVec 64) {d : BitVec 64} (nonzero : d ≠ 0) :
    sdiv64 n d = some (n.sdiv d) := by
  have sign (x : BitVec 64) : (0 ≤ x.toInt ↔ x.msb = false) ∧ (x.toInt < 0 ↔ x.msb = true) := by
    rw [msb_eq_toInt]
    simp
  have negated : -d ≠ 0 := fun zero => nonzero (neg_eq_zero_iff.mp zero)
  unfold sdiv64
  rw [sdiv_eq]
  simp only [sign]
  cases n.msb <;> cases d.msb <;> simp [udiv64_eq _ nonzero, udiv64_eq _ negated]

/-- `udiv64` is the quotient, and none of its divisions traps; `sdiv64` is the quotient rounded
    towards zero wherever that is a 64-bit number. -/
theorem div64_exact (n : BitVec 64) {d : BitVec 64} (nonzero : d ≠ 0) :
    (∃ q, udiv64 n d = some q ∧ q.toNat = n.toNat / d.toNat) ∧
      (n ≠ intMin 64 ∨ d ≠ -1 → ∃ q, sdiv64 n d = some q ∧ q.toInt = n.toInt.tdiv d.toInt) :=
  ⟨⟨_, udiv64_eq n nonzero, toNat_udiv⟩, fun fits =>
    ⟨_, sdiv64_eq n nonzero, toInt_sdiv_of_ne_or_ne n d fits⟩⟩

/-- A divisor of 34 bits, and a negative number divided by a positive one. -/
theorem div64_exact_high :
    (∃ q, udiv64 0xFFFFFFFFFFFFFFFF 0x200000001 = some q ∧ q.toNat = 2 ^ 31 - 1) ∧
      ∃ q, sdiv64 (-7) 2 = some q ∧ q.toInt = -3 :=
  ⟨(div64_exact _ (by decide)).1, (div64_exact _ (by decide)).2 (.inl (by decide))⟩

/-! ## The remainders -/

theorem signExtend_setWidth (x : BitVec 64) :
    ((x.setWidth 32).signExtend 64).toInt = x.toInt ↔ -2 ^ 31 ≤ x.toInt ∧ x.toInt < 2 ^ 31 := by
  have bound := x.isLt
  rw [toInt_signExtend_of_le (by decide), toInt_setWidth, Int.bmod_def]
  rw [toInt_eq_toNat_cond]
  omega

/-- The remainders are right exactly where they fit the 32 bits of the types that `umod64` and
    `smod64` return. -/
theorem mod64_exact_iff (n : BitVec 64) {d : BitVec 64} (nonzero : d ≠ 0) :
    ((∃ r, umoddi3 n d = some r ∧ r.toNat = n.toNat % d.toNat) ↔ n.toNat % d.toNat < 2 ^ 32) ∧
    (n ≠ intMin 64 ∨ d ≠ -1 →
      ((∃ r, moddi3 n d = some r ∧ r.toInt = n.toInt - d.toInt * n.toInt.tdiv d.toInt) ↔
        -2 ^ 31 ≤ n.toInt - d.toInt * n.toInt.tdiv d.toInt ∧
          n.toInt - d.toInt * n.toInt.tdiv d.toInt < 2 ^ 31)) := by
  constructor
  · have product : (d * (n / d)).toNat = d.toNat * (n.toNat / d.toNat) := by
      rw [toNat_mul, toNat_udiv, mod_eq_of_lt ((mul_div_le ..).trans_lt n.isLt)]
    have rem : (n - d * (n / d)).toNat = n.toNat % d.toNat := by
      have quotient := div_add_mod n.toNat d.toNat
      rw [toNat_sub_of_le (BitVec.le_def.mpr (product ▸ mul_div_le ..)), product]
      omega
    have value : umoddi3 n d = some (((n - d * (n / d)).setWidth 32).setWidth 64) := by
      simp [umoddi3, umod64, udiv64_eq n nonzero]
    simp only [value, Option.some.injEq, exists_eq_left', toNat_setWidth, rem]
    omega
  intro inRange
  have rem : (n - d * n.sdiv d).toInt = n.toInt - d.toInt * n.toInt.tdiv d.toInt := by
    rw [toInt_sub, toInt_mul, toInt_sdiv_of_ne_or_ne n d inRange, Int.sub_bmod_bmod,
      ← Int.tmod_def, ← toInt_srem]
    exact Int.bmod_eq_of_le (n.srem d).le_toInt (n.srem d).toInt_lt
  have value : moddi3 n d = some (((n - d * n.sdiv d).setWidth 32).signExtend 64) := by
    simp [moddi3, smod64, sdiv64_eq n nonzero]
  simp only [value, Option.some.injEq, exists_eq_left', ← rem]
  exact signExtend_setWidth _

theorem mod64_exact_iff_small : (∃ r, umoddi3 0x500000007 0x100000000 = some r ∧ r.toNat = 7) ∧
      ∃ r, moddi3 (-7) 2 = some r ∧ r.toInt = -1 :=
  ⟨(mod64_exact_iff _ (by decide)).1.mpr (by decide),
    ((mod64_exact_iff _ (by decide)).2 (.inl (by decide))).mpr (by decide)⟩

/-- A remainder of 33 bits comes out as 0, and one of 32 bits as a negative number. -/
theorem mod64_truncated :
    (∃ n d r : BitVec 64, d ≠ 0 ∧ umoddi3 n d = some r ∧ r.toNat ≠ n.toNat % d.toNat) ∧
      ∃ n d r : BitVec 64, 0 < n.toInt ∧ 0 < d.toInt ∧ moddi3 n d = some r ∧
        r.toInt ≠ n.toInt - d.toInt * n.toInt.tdiv d.toInt :=
  ⟨⟨0x100000000, 0x100000001, 0, by decide⟩, 0x80000000, 0x100000000, -0x80000000, by decide⟩

end Pintos
