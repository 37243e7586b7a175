import Conformance.Number.Rounding
import Conformance.Text.NumericText

/-! The shortest decimal text of a binary floating-point number: the fewest digits that round back
to it, and of those the nearest.  `Notation` says how the digits are laid out. -/

namespace Conformance.Binary64

/-- A positive decimal number `digits * 10 ^ exponent`. -/
structure Scientific where
  digits : Nat
  exponent : Int
deriving DecidableEq, Repr

/-- Compares `a * 2 ^ q` with `d * 10 ^ p`. -/
def compareScaled (a : Nat) (q : Int) (d : Nat) (p : Int) : Ordering :=
  compare ((a * tenTo (-p).toNat) <<< q.toNat) ((d * tenTo p.toNat) <<< (-q).toNat)

/-- The reals that round to a positive finite number lie between `low * 2 ^ q` and
`high * 2 ^ q`; both ends round to it when `closed` holds.  The number itself is
`middle * 2 ^ q`. -/
structure Interval where
  low : Nat
  middle : Nat
  high : Nat
  q : Int
  closed : Bool

/-- The interval of a positive finite number.  Below a power of two the gap is half as wide. -/
def interval (x : Binary64) : Interval :=
  let (m, q) := x.significand
  let narrow := x.fraction = 0 && 1 < x.exponentField
  { low := 4 * m - (if narrow then 1 else 2), middle := 4 * m, high := 4 * m + 2, q := q - 2,
    closed := m % 2 = 0 }

/-- Whether `d * 10 ^ p` rounds to the number. -/
def Interval.contains (i : Interval) (d : Nat) (p : Int) : Bool :=
  match compareScaled i.low i.q d p, compareScaled i.high i.q d p with
  | .lt, .gt => true
  | .eq, _ => i.closed
  | _, .eq => i.closed
  | _, _ => false

/-- The multiple of `10 ^ p` that rounds to the number and lies nearest to it, if there is one.
Only the two multiples around the number can be it; a tie goes to the even one. -/
def Interval.onGrid? (i : Interval) (p : Int) : Option Scientific :=
  let num := (i.middle * tenTo (-p).toNat) <<< i.q.toNat
  let den := tenTo p.toNat <<< (-i.q).toNat
  let below := num / den
  let r := num % den
  let nearer := if 2 * r < den || (2 * r = den && below % 2 = 0) then below else below + 1
  let farther := if nearer = below then below + 1 else below
  if i.contains nearer p then some ⟨nearer, p⟩
  else if i.contains farther p then some ⟨farther, p⟩
  else none

/-- Tries the grids `10 ^ p`, `10 ^ (p - 1)` and so on, as many as `steps`. -/
def Interval.coarsest (i : Interval) (p : Int) : (steps : Nat) → Scientific
  | 0 => ⟨0, 0⟩
  | steps + 1 =>
    match i.onGrid? p with
    | some d => d
    | none => i.coarsest (p - 1) steps

/-- The shortest decimal that rounds to a positive finite number.  No such number has a multiple of
`10 ^ 310` near it, and each has a multiple of `10 ^ -340`. -/
def shortest (x : Binary64) : Scientific := x.interval.coarsest 310 651

/-- How the digits of a decimal are laid out. -/
structure Notation where
  /-- The least exponent of the first digit at which digits are written without an exponent. -/
  leastPlain : Int
  /-- The greatest such exponent. -/
  greatestPlain : Int

/-- Digits stand without an exponent while the first one is worth at least `10 ^ -5` and at most
`10 ^ 15`. -/
def plainNotation : Notation := ⟨-5, 15⟩

/-- The digits of a decimal with a point, and with a signed exponent where the notation asks for
one. A number without an exponent always has a digit after the point. -/
def Notation.layOut (form : Notation) (d : Scientific) : List Char :=
  let ds := Decimal.digits d.digits
  let first := d.exponent + ds.length - 1
  if form.leastPlain ≤ first && first ≤ form.greatestPlain then
    if 0 ≤ d.exponent then ds ++ List.replicate d.exponent.toNat '0' ++ ['.', '0']
    else if 0 ≤ first then ds.take (first.toNat + 1) ++ '.' :: ds.drop (first.toNat + 1)
    else ['0', '.'] ++ List.replicate (-first - 1).toNat '0' ++ ds
  else
    let mantissa := match ds with
      | [] => []
      | [c] => [c]
      | c :: rest => c :: '.' :: rest
    mantissa ++ ['e', if first < 0 then '-' else '+'] ++ Decimal.digits first.natAbs

/-- The shortest text that reads back as the number. -/
def text (x : Binary64) : String :=
  if x.isNaN then "NaN"
  else
    let sign := if x.isNegative then ['-'] else []
    let magnitude :=
      if x.isInfinite then ['i', 'n', 'f']
      else if x.isZero then ['0', '.', '0']
      else plainNotation.layOut x.shortest
    String.ofList (sign ++ magnitude)

end Conformance.Binary64
