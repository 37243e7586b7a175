/-! Binary floating-point numbers of 64 bits, by their bits: a sign, eleven bits of exponent and
fifty-two of fraction.  All bits count, so that two not-a-numbers with different fractions are
different numbers. -/

namespace Conformance

/-- A binary floating-point number of 64 bits. -/
structure Binary64 where
  /-- The encoding, the sign in the highest bit. -/
  bits : UInt64
deriving DecidableEq, Repr

namespace Binary64

/-- How many values the fraction field has: two to the 52nd power. -/
def fractionCount : Nat := 0x10000000000000

/-- How many values the exponent field has: two to the 11th power. -/
def exponentCount : Nat := 0x800

/-- The sign bit: two to the 63rd power. -/
def signBit : Nat := 0x8000000000000000

/-- The fraction field. -/
def fraction (x : Binary64) : Nat := x.bits.toNat % fractionCount

/-- The exponent field, with its bias. -/
def exponentField (x : Binary64) : Nat := x.bits.toNat / fractionCount % exponentCount

/-- Whether the sign bit is set. -/
def isNegative (x : Binary64) : Bool := signBit ≤ x.bits.toNat

/-- Whether the number is not a number. -/
def isNaN (x : Binary64) : Bool := x.exponentField = exponentCount - 1 && x.fraction ≠ 0

/-- Whether the number is one of the two infinities. -/
def isInfinite (x : Binary64) : Bool := x.exponentField = exponentCount - 1 && x.fraction = 0

/-- Whether the number is one of the two zeros. -/
def isZero (x : Binary64) : Bool := x.exponentField = 0 && x.fraction = 0

/-- The number with a sign and the remaining 63 bits. -/
def ofMagnitude (negative : Bool) (magnitude : Nat) : Binary64 :=
  ⟨UInt64.ofNat (magnitude + if negative then signBit else 0)⟩

/-- Zero with a sign. -/
def zero (negative : Bool) : Binary64 := ofMagnitude negative 0

/-- The magnitude of infinity, above that of every finite number. -/
def infiniteMagnitude : Nat := (exponentCount - 1) * fractionCount

/-- Infinity with a sign. -/
def infinity (negative : Bool) : Binary64 := ofMagnitude negative infiniteMagnitude

/-- Equality of the numbers meant: a not-a-number equals nothing, the two zeros are equal. -/
def equal (x y : Binary64) : Bool :=
  !x.isNaN && !y.isNaN && (x = y || (x.isZero && y.isZero))

/-- The significand `m` and the exponent `q` of a finite number `± m * 2 ^ q`. -/
def significand (x : Binary64) : Nat × Int :=
  if x.exponentField = 0 then (x.fraction, -1074)
  else (x.fraction + fractionCount, x.exponentField - 1075)

theorem equal_comm (x y : Binary64) : x.equal y = y.equal x := by
  have h : decide (x = y) = decide (y = x) := by simp [eq_comm]
  simp only [equal, h, Bool.and_comm x.isZero, Bool.and_comm (!x.isNaN)]

theorem equal_trans {x y z : Binary64} (hxy : x.equal y = true) (hyz : y.equal z = true) :
    x.equal z = true := by
  simp only [equal, Bool.and_eq_true, Bool.or_eq_true, decide_eq_true_eq] at hxy hyz ⊢
  obtain ⟨⟨hx, -⟩, hxy⟩ := hxy
  obtain ⟨⟨-, hz⟩, hyz⟩ := hyz
  refine ⟨⟨hx, hz⟩, ?_⟩
  rcases hxy with rfl | ⟨hxZero, hyZero⟩
  · exact hyz
  · rcases hyz with rfl | ⟨-, hzZero⟩
    · exact .inr ⟨hxZero, hyZero⟩
    · exact .inr ⟨hxZero, hzZero⟩

/-- Only a not-a-number differs from itself. -/
theorem equal_self (x : Binary64) : x.equal x = !x.isNaN := by
  simp [equal]

section OfMagnitude

variable {negative : Bool} {magnitude : Nat}

theorem toNat_ofMagnitude (h : magnitude < signBit) :
    (ofMagnitude negative magnitude).bits.toNat = magnitude + if negative then signBit else 0 := by
  refine UInt64.toNat_ofNat_of_lt' ?_
  simp only [signBit, UInt64.size] at *
  split <;> omega

theorem exponentField_ofMagnitude (h : magnitude < signBit) :
    (ofMagnitude negative magnitude).exponentField = magnitude / fractionCount := by
  rw [exponentField, toNat_ofMagnitude h]
  simp only [signBit, fractionCount, exponentCount] at *
  split <;> omega

theorem fraction_ofMagnitude (h : magnitude < signBit) :
    (ofMagnitude negative magnitude).fraction = magnitude % fractionCount := by
  rw [fraction, toNat_ofMagnitude h]
  simp only [signBit, fractionCount] at *
  split <;> omega

theorem isNaN_ofMagnitude (h : magnitude ≤ infiniteMagnitude) :
    (ofMagnitude negative magnitude).isNaN = false := by
  have hSign : magnitude < signBit := Nat.lt_of_le_of_lt h (by decide)
  have hFields : ¬(magnitude / fractionCount = exponentCount - 1 ∧
      magnitude % fractionCount ≠ 0) := by
    simp only [infiniteMagnitude, exponentCount, fractionCount] at h ⊢
    omega
  rw [isNaN, exponentField_ofMagnitude hSign, fraction_ofMagnitude hSign, ← Bool.decide_and]
  exact decide_eq_false hFields

end OfMagnitude

end Binary64

end Conformance
