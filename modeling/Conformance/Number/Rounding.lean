import Conformance.Number.Binary64

/-! Rounding to the nearest binary floating-point number, by exact arithmetic on natural numbers.  A
tie goes to the number whose significand is even; what lies beyond the greatest finite number
becomes an infinity.  Products and quotients are rounded in the same way, and decimal numbers are
put together from them. -/

namespace Conformance.Binary64

/-- The quotient rounded to the nearest integer, a tie to the even one. -/
def roundedQuotient (num den : Nat) : Nat :=
  let q := num / den
  let r := num % den
  if 2 * r < den || (2 * r = den && q % 2 = 0) then q else q + 1

/-- Numerator and denominator of `num / den / 2 ^ q`. -/
def scaled (num den : Nat) (q : Int) : Nat × Nat :=
  if 0 ≤ q then (num, den <<< q.toNat) else (num <<< (-q).toNat, den)

/-- The exponent of the last significand bit when `num / den` is written with 53 bits, or with
fewer where the number is too small for them. -/
def lastExponent (num den : Nat) : Int :=
  let q : Int := (num.log2 : Int) - den.log2 - 53
  let (n, d) := scaled num den q
  max (-1074) (if n < d <<< 53 then q else q + 1)

/-- The number nearest to `num / den`, with a sign. -/
def nearest (negative : Bool) (num den : Nat) : Binary64 :=
  if num = 0 then zero negative
  else
    let q := lastExponent num den
    let (n, d) := scaled num den q
    let magnitude := (q + 1074).toNat * fractionCount + roundedQuotient n d
    if magnitude < infiniteMagnitude then ofMagnitude negative magnitude else infinity negative

/-- Ten to a power. -/
def tenTo (e : Nat) : Nat := Nat.pow 10 e

/-- The number nearest to an integer. -/
def ofInt (i : Int) : Binary64 := nearest (i < 0) i.natAbs 1

/-- The finite number nearest to a product of finite numbers, or an infinity. -/
def mul (x y : Binary64) : Binary64 :=
  let (m, p) := x.significand
  let (n, q) := y.significand
  let (num, den) := scaled (m * n) 1 (-(p + q))
  nearest (x.isNegative != y.isNegative) num den

/-- The finite number nearest to a quotient of finite numbers of which the second is not zero, or
an infinity. -/
def div (x y : Binary64) : Binary64 :=
  let (m, p) := x.significand
  let (n, q) := y.significand
  let (num, den) := scaled m n (q - p)
  nearest (x.isNegative != y.isNegative) num den

def neg (x : Binary64) : Binary64 := ofMagnitude (!x.isNegative) (x.bits.toNat % signBit)

/-- The exponent of the greatest power of ten that is finite. -/
def greatestPower : Nat := 308

/-- The number nearest to a power of ten. -/
def powerOfTen (e : Nat) : Binary64 := nearest false (tenTo e) 1

/-- A number divided by a power of ten.  Where the power is infinite, the greatest finite one is
divided by first, again and again as long as something is left. -/
def overTenTo (x : Binary64) (e : Nat) : Binary64 :=
  if e ≤ greatestPower then x.div (powerOfTen e)
  else if x.isZero then x
  else overTenTo (x.div (powerOfTen greatestPower)) (e - greatestPower)
termination_by e
decreasing_by simp only [greatestPower] at *; omega

/-- The number `m * 10 ^ e` as a product or a quotient of `m` and a power of ten.  Both are rounded
first and their product or quotient once more, so that the result need not be the number nearest to
`m * 10 ^ e`. -/
def ofParts (m : Nat) (e : Int) : Binary64 :=
  let x := nearest false m 1
  if e < 0 then x.overTenTo (-e).toNat
  else if e ≤ greatestPower then x.mul (powerOfTen e.toNat)
  else if x.isZero then x
  else infinity false

/-! Whatever is rounded is a number, perhaps an infinity. -/

theorem isNaN_nearest (negative : Bool) (num den : Nat) :
    (nearest negative num den).isNaN = false := by
  unfold nearest
  split
  · exact isNaN_ofMagnitude (Nat.zero_le _)
  · dsimp only
    split
    · next hFinite => exact isNaN_ofMagnitude (Nat.le_of_lt hFinite)
    · exact isNaN_ofMagnitude (Nat.le_refl _)

theorem isNaN_mul (x y : Binary64) : (x.mul y).isNaN = false := by
  unfold mul
  split
  split
  split
  exact isNaN_nearest ..

theorem isNaN_div (x y : Binary64) : (x.div y).isNaN = false := by
  unfold div
  split
  split
  split
  exact isNaN_nearest ..

theorem isNaN_of_isZero {x : Binary64} (h : x.isZero = true) : x.isNaN = false := by
  simp only [isZero, Bool.and_eq_true, decide_eq_true_eq] at h
  simp [isNaN, h.2]

theorem isNaN_overTenTo (x : Binary64) (e : Nat) : (x.overTenTo e).isNaN = false := by
  fun_induction overTenTo x e with
  | case1 x e => exact isNaN_div ..
  | case2 x e _ hZero => exact isNaN_of_isZero hZero
  | case3 x e _ _ ih => exact ih

theorem isNaN_ofParts (m : Nat) (e : Int) : (ofParts m e).isNaN = false := by
  unfold ofParts
  dsimp only
  split
  · exact isNaN_overTenTo ..
  · split
    · exact isNaN_mul ..
    · split
      · exact isNaN_nearest ..
      · exact isNaN_ofMagnitude (Nat.le_refl _)

theorem exponentField_neg (x : Binary64) : x.neg.exponentField = x.exponentField := by
  rw [neg, exponentField_ofMagnitude (Nat.mod_lt _ (by decide)), exponentField]
  simp only [signBit, fractionCount, exponentCount]
  omega

theorem fraction_neg (x : Binary64) : x.neg.fraction = x.fraction := by
  rw [neg, fraction_ofMagnitude (Nat.mod_lt _ (by decide)), fraction]
  simp only [signBit, fractionCount]
  omega

theorem isNaN_neg (x : Binary64) : x.neg.isNaN = x.isNaN := by
  rw [isNaN, exponentField_neg, fraction_neg, isNaN]

theorem isInfinite_neg (x : Binary64) : x.neg.isInfinite = x.isInfinite := by
  rw [isInfinite, exponentField_neg, fraction_neg, isInfinite]

end Conformance.Binary64
