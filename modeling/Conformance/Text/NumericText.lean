/-! Numbers in texts.  An integer has a canonical text, without a plus sign or leading zeros.  A
text spells a number when it is ASCII white space around an optional sign, decimal digits with an
optional fraction (or a fraction alone), and an optional exponent.  Digits and white space of other
scripts do not count. -/

namespace Conformance

namespace Decimal

def digits (n : Nat) : List Char := Nat.toDigits 10 n

def text (i : Int) : String :=
  String.ofList (if i < 0 then '-' :: digits i.natAbs else digits i.natAbs)

def value (ds : List Char) : Nat := ds.foldl (fun n c => 10 * n + (c.toNat - '0'.toNat)) 0

/-- The integer that an optional minus sign and one or more digits spell. -/
def toInt? (s : List Char) : Option Int :=
  let (negative, ds) := match s with
    | '-' :: ds => (true, ds)
    | ds => (false, ds)
  if ds.isEmpty || !ds.all Char.isDigit then none
  else some (if negative then -(value ds : Int) else value ds)

end Decimal

namespace Text

def isPadding (c : Char) : Bool :=
  c = ' ' || c = '\t' || c = '\n' || c = '\r' || c = '\x0b' || c = '\x0c'

/-- What follows a sign, or the text itself where no sign stands. -/
def afterSign : List Char → List Char
  | '+' :: rest => rest
  | '-' :: rest => rest
  | s => s

def afterDigits? : List Char → Option (List Char)
  | c :: rest => if c.isDigit then some (rest.dropWhile Char.isDigit) else none
  | [] => none

/-- What follows a mantissa: digits with an optional fraction that may be empty, or a point and
digits. -/
def afterMantissa? : List Char → Option (List Char)
  | '.' :: rest => afterDigits? rest
  | s =>
    match afterDigits? s with
    | some ('.' :: rest) => some (rest.dropWhile Char.isDigit)
    | rest => rest

/-- What follows an optional exponent.  An exponent that lacks its digits is none at all. -/
def afterExponent? : List Char → Option (List Char)
  | 'e' :: rest => afterDigits? (afterSign rest)
  | 'E' :: rest => afterDigits? (afterSign rest)
  | s => some s

def spellsNumber (s : List Char) : Bool :=
  match (afterMantissa? (afterSign (s.dropWhile isPadding))).bind afterExponent? with
  | some rest => rest.all isPadding
  | none => false

def isNumeric (s : String) : Bool := spellsNumber s.toList

end Text

end Conformance
