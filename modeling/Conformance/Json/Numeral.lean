import Conformance.Json.Document
import Conformance.Json.Reader

/-! Numbers in JSON: an optional minus sign, digits without a leading zero, an optional fraction
and an optional exponent.  A number without fraction and exponent is an integer as far as 64 bits
go, unsigned or signed; every other number is a float. -/

namespace Conformance.Json

/-- The parts of a written number. -/
structure Numeral where
  negative : Bool
  /-- The digits before the point. -/
  whole : List Char
  /-- The digits after the point, none where no point stands. -/
  fraction : List Char
  /-- Whether the exponent is negative. -/
  exponentNegative : Bool
  /-- The digits of the exponent, none where no exponent stands. -/
  exponent : List Char
deriving DecidableEq, Repr

namespace Numeral

def digits (s : List Char) : List Char × List Char :=
  (s.takeWhile Char.isDigit, s.dropWhile Char.isDigit)

/-- A minus sign, if one stands here, and what follows it. -/
def minus : List Char → Bool × List Char
  | '-' :: rest => (true, rest)
  | s => (false, s)

/-- The digits before the point: a zero alone, or digits that begin with another one.  At the end of
the text the fault is `atEnd`. -/
def scanWhole (atEnd : Cause) : List Char → Reading (List Char)
  | [] => .error (.here atEnd [])
  | c :: rest =>
    if c = '0' then
      if (rest.head?.map Char.isDigit).getD false then .error (.next .badNumber rest)
      else .ok (['0'], rest)
    else if c.isDigit then .ok (c :: (digits rest).1, (digits rest).2)
    else .error (.next .badNumber (c :: rest))

def scanFraction (atEnd : Cause) : List Char → Reading (List Char)
  | '.' :: rest =>
    match digits rest with
    | ([], []) => .error (.here atEnd [])
    | ([], after) => .error (.next .badNumber after)
    | (ds, after) => .ok (ds, after)
  | s => .ok ([], s)

/-- The digits of an exponent, of which there must be one. -/
def scanExponentDigits (atEnd : Cause) : List Char → Reading (List Char)
  | [] => .error (.here atEnd [])
  | c :: rest =>
    if c.isDigit then .ok (c :: (digits rest).1, (digits rest).2)
    else .error (.next .badNumber (c :: rest))

/-- The sign and the digits behind the mark of an exponent. -/
def scanSigned (atEnd : Cause) (s : List Char) : Reading (Bool × List Char) :=
  let (negative, rest) := match s with
    | '+' :: rest => (false, rest)
    | '-' :: rest => (true, rest)
    | s => (false, s)
  match scanExponentDigits atEnd rest with
  | .ok (ds, after) => .ok ((negative, ds), after)
  | .error fault => .error fault

/-- The sign and the digits of an exponent, if one stands here. -/
def scanExponent (atEnd : Cause) : List Char → Reading (Bool × List Char)
  | 'e' :: rest => scanSigned atEnd rest
  | 'E' :: rest => scanSigned atEnd rest
  | s => .ok ((false, []), s)

/-- The parts of the number at the front of a text.  At the end of the text the fault is `atEnd`. -/
def scan (atEnd : Cause) (s : List Char) : Reading Numeral :=
  let (negative, s) := minus s
  match scanWhole atEnd s with
  | .error fault => .error fault
  | .ok (whole, s) => match scanFraction atEnd s with
    | .error fault => .error fault
    | .ok (fraction, s) => match scanExponent atEnd s with
      | .error fault => .error fault
      | .ok ((exponentNegative, exponent), s) =>
        .ok (⟨negative, whole, fraction, exponentNegative, exponent⟩, s)

def mantissa (n : Numeral) : Nat := Decimal.value (n.whole ++ n.fraction)

/-- The greatest exponent that is reckoned with, the greatest integer of 32 bits. -/
def greatestExponent : Nat := 2147483647

/-- The digits behind the first one at which the exponent exceeds the greatest, if it does. -/
def beyondGreatest (sofar : Nat) : List Char → Option (List Char)
  | [] => none
  | c :: rest =>
    let exponent := 10 * sofar + (c.toNat - '0'.toNat)
    if greatestExponent < exponent then some rest else beyondGreatest exponent rest

/-- The significand with the digits of a text behind it as far as it stays below two to the 64th
power, and the digits that are left. -/
def gather (m : Nat) : List Char → Nat × List Char
  | [] => (m, [])
  | c :: rest =>
    let next := 10 * m + (c.toNat - '0'.toNat)
    if next < UInt64.size then gather next rest else (m, c :: rest)

/-- The significand of a number and the power of ten that goes with it, without the exponent that is
written.  Digits that are left over are dropped, and those before the point raise the power.  Behind
them the fraction may still begin with digits that are taken. -/
def parts (n : Numeral) : Nat × Int :=
  let (m, unread) := gather 0 n.whole
  let (m, dropped) := gather m n.fraction
  (m, unread.length + dropped.length - n.fraction.length)

/-- The float that a number means, with `rest` behind the number.  An exponent beyond the greatest
makes the number too great where it stands, or else makes it zero. -/
def toFloat (n : Numeral) (rest : List Char) : Except Fault Binary64 :=
  let (significand, power) := n.parts
  match beyondGreatest 0 n.exponent with
  | some digits =>
    if significand ≠ 0 && !n.exponentNegative then .error (.here .outOfRange (digits ++ rest))
    else .ok (.zero n.negative)
  | none =>
    let exponent : Int := Decimal.value n.exponent
    let exponent := if n.exponentNegative then power - exponent else power + exponent
    let x := Binary64.ofParts significand exponent
    if x.isInfinite then .error (.here .outOfRange rest)
    else .ok (if n.negative then x.neg else x)

def toInteger? (n : Numeral) : Option Int :=
  if !n.fraction.isEmpty || !n.exponent.isEmpty then none
  else
    let m := n.mantissa
    if n.negative then
      if 0 < m && Int64.minValue.toInt ≤ -m then some (-m) else none
    else if m < UInt64.size then some m else none

def toDocument (n : Numeral) (rest : List Char) : Except Fault Document :=
  match n.toInteger? with
  | some i => .ok (.integer i)
  | none => (n.toFloat rest).map .float

theorem length_digits (s : List Char) : (digits s).2.length ≤ s.length :=
  (List.dropWhile_sublist Char.isDigit).length_le

theorem length_of_scanWhole {atEnd : Cause} {s ds rest : List Char}
    (h : scanWhole atEnd s = .ok (ds, rest)) : rest.length < s.length := by
  cases s with
  | nil => simp [scanWhole] at h
  | cons c s =>
    have := length_digits s
    simp only [scanWhole] at h
    split at h
    · split at h <;> cases h
      simp
    · split at h <;> cases h
      simp only [List.length_cons]
      omega

theorem length_of_scanFraction {atEnd : Cause} {s ds rest : List Char}
    (h : scanFraction atEnd s = .ok (ds, rest)) : rest.length ≤ s.length := by
  unfold scanFraction at h
  split at h
  · next body =>
    have := length_digits body
    split at h
    · cases h
    · cases h
    · next hd =>
      cases h
      rw [hd] at this
      exact Nat.le_succ_of_le this
  · cases h
    exact Nat.le_refl _

theorem length_of_scanExponentDigits {atEnd : Cause} {s ds rest : List Char}
    (h : scanExponentDigits atEnd s = .ok (ds, rest)) : rest.length ≤ s.length := by
  cases s with
  | nil => simp [scanExponentDigits] at h
  | cons c s =>
    have := length_digits s
    simp only [scanExponentDigits] at h
    split at h <;> cases h
    exact Nat.le_succ_of_le this

theorem length_of_scanSigned {atEnd : Cause} {s rest : List Char} {e : Bool × List Char}
    (h : scanSigned atEnd s = .ok (e, rest)) : rest.length ≤ s.length := by
  unfold scanSigned at h
  split at h
  next negative body hb =>
    split at h
    · next hd =>
      cases h
      have h1 := length_of_scanExponentDigits hd
      have h2 : body.length ≤ s.length := by
        split at hb <;> cases hb <;> simp
      omega
    · cases h

theorem length_of_scanExponent {atEnd : Cause} {s rest : List Char} {e : Bool × List Char}
    (h : scanExponent atEnd s = .ok (e, rest)) : rest.length ≤ s.length := by
  unfold scanExponent at h
  split at h
  · exact Nat.le_succ_of_le (length_of_scanSigned h)
  · exact Nat.le_succ_of_le (length_of_scanSigned h)
  · cases h
    exact Nat.le_refl _

theorem length_minus (s : List Char) : (minus s).2.length ≤ s.length := by
  unfold minus
  split <;> simp

theorem length_of_scan {atEnd : Cause} {s rest : List Char} {n : Numeral}
    (h : scan atEnd s = .ok (n, rest)) : rest.length < s.length := by
  have h0 := length_minus s
  unfold scan at h
  dsimp only at h
  split at h
  · cases h
  · next h1 =>
    split at h
    · cases h
    · next h2 =>
      split at h
      · cases h
      · next h3 =>
        cases h
        have l1 := length_of_scanWhole h1
        have l2 := length_of_scanFraction h2
        have l3 := length_of_scanExponent h3
        omega

def readNumber (s : List Char) : Reading Document :=
  match scan .endInValue s with
  | .error fault => .error fault
  | .ok (n, rest) => match n.toDocument rest with
    | .ok d => .ok (d, rest)
    | .error fault => .error fault

def skipNumber (s : List Char) : Reading Unit :=
  match scan .badNumber s with
  | .error fault => .error fault
  | .ok (_, rest) => .ok ((), rest)

theorem length_of_readNumber {s rest : List Char} {d : Document}
    (h : readNumber s = .ok (d, rest)) : rest.length < s.length := by
  unfold readNumber at h
  split at h
  · cases h
  · next hs =>
    split at h <;> cases h
    exact length_of_scan hs

theorem length_of_skipNumber {s rest : List Char} {u : Unit} (h : skipNumber s = .ok (u, rest)) :
    rest.length < s.length := by
  unfold skipNumber at h
  split at h
  · cases h
  · next hs =>
    cases h
    exact length_of_scan hs

def reader : Reader Document := ⟨readNumber, length_of_readNumber⟩

def skipper : Reader Unit := ⟨skipNumber, length_of_skipNumber⟩

end Numeral

end Conformance.Json
