import Conformance.Description.Generic
import Conformance.Description.Union

/-! Grammars of type descriptions.  A grammar reads a text as a description and takes descriptions
apart; what it takes them apart into are descriptions again.  White space, which one grammar trims,
are the characters with the Unicode property `White_Space`. -/

namespace Conformance

namespace Text

/-- The ranges of code points with the property `White_Space`. -/
def blankRanges : List (Nat × Nat) :=
  [(0x9, 0xD), (0x20, 0x20), (0x85, 0x85), (0xA0, 0xA0), (0x1680, 0x1680), (0x2000, 0x200A),
    (0x2028, 0x2029), (0x202F, 0x202F), (0x205F, 0x205F), (0x3000, 0x3000)]

def isBlank (c : Char) : Bool :=
  blankRanges.any fun r => r.1 ≤ c.toNat && c.toNat ≤ r.2

/-- Removes white space from both ends of a list of characters. -/
def trimChars (s : List Char) : List Char :=
  ((s.dropWhile isBlank).reverse.dropWhile isBlank).reverse

def trim (s : String) : String := String.ofList (trimChars s.toList)

end Text

/-- A way to read type descriptions. -/
structure Grammar where
  /-- The description that a text stands for. -/
  read : String → String
  /-- The alternatives of a union. -/
  alternatives : String → List String
  /-- The name of the outermost type. -/
  outerName : String → Except DescriptionError String
  /-- The generic argument, empty where there is none. -/
  argument : String → String
  /-- The key and value types of a generic argument; the key type is empty where there is none. -/
  keyValue : String → String × String

namespace Grammar

/-- The grammar that takes every character for what it is. -/
def standard : Grammar where
  read := id
  alternatives := Description.alternatives
  outerName := Description.outerName
  argument := Description.argument
  keyValue := Description.keyValue

/-- A grammar with white space removed from both ends of whatever it reads or takes out. -/
def trimmed (g : Grammar) : Grammar where
  read text := Text.trim (g.read text)
  alternatives d := (g.alternatives d).map Text.trim
  outerName d := (g.outerName d).map Text.trim
  argument d := Text.trim (g.argument d)
  keyValue d := (Text.trim (g.keyValue d).1, Text.trim (g.keyValue d).2)

/-- The grammar that allows white space around the parts of a description. -/
def spaced : Grammar := standard.trimmed

end Grammar

end Conformance
