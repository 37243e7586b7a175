import Conformance.Number.Shortest
import Conformance.Text.Quoted

/-! What can be wrong with a JSON text, where in the text, and at which part of the document.  A
place in the text is kept as the number of bytes that are left from there on, so a reader need not
know where its own text begins. -/

namespace Conformance.Json

/-- The sort of value that a document holds where another was expected. -/
inductive Found where
  | null
  | bool (b : Bool)
  | integer (i : Int)
  | float (x : Binary64)
  | string (s : String)
  | sequence
  | map
deriving DecidableEq, Repr

def Found.text : Found → String
  | null => "null"
  | bool b => s!"boolean `{b}`"
  | integer i => s!"integer `{Decimal.text i}`"
  | float x => s!"floating point `{x.text}`"
  | string s => s!"string {Text.quoted s}"
  | sequence => "sequence"
  | map => "map"

/-- What is wrong. -/
inductive Cause where
  | endInValue
  | endInString
  | endInList
  | endInObject
  /-- A word begins like `null`, `true` or `false` and goes on otherwise. -/
  | wrongWord
  | noValue
  | badNumber
  | outOfRange
  | badEscape
  | controlCharacter
  /-- A surrogate that must follow another stands alone, or one is followed by something else. -/
  | loneSurrogate
  /-- A surrogate that must be followed by another escape is not. -/
  | halfPair
  | tooDeep
  | trailingComma
  | trailingText
  | noListSeparator
  | noObjectSeparator
  | keyNotString
  | noColon
  | wrongType (found : Found) (expected : String)
  | wrongValue (found : Found) (expected : String)
  | wrongLength (length : Nat) (expected : String)
  | missingField (name : String)
  | duplicateField (name : String)
  /-- A record has a field that is none of those it may have. -/
  | unknownField (name : String) (known : List String)
deriving DecidableEq, Repr

def Cause.message : Cause → String
  | endInValue => "EOF while parsing a value"
  | endInString => "EOF while parsing a string"
  | endInList => "EOF while parsing a list"
  | endInObject => "EOF while parsing an object"
  | wrongWord => "expected ident"
  | noValue => "expected value"
  | badNumber => "invalid number"
  | outOfRange => "number out of range"
  | badEscape => "invalid escape"
  | controlCharacter => "control character (\\u0000-\\u001F) found while parsing a string"
  | loneSurrogate => "lone leading surrogate in hex escape"
  | halfPair => "unexpected end of hex escape"
  | tooDeep => "recursion limit exceeded"
  | trailingComma => "trailing comma"
  | trailingText => "trailing characters"
  | noListSeparator => "expected `,` or `]`"
  | noObjectSeparator => "expected `,` or `\x7d`"
  | keyNotString => "key must be a string"
  | noColon => "expected `:`"
  | wrongType found expected => s!"invalid type: {found.text}, expected {expected}"
  | wrongValue found expected => s!"invalid value: {found.text}, expected {expected}"
  | wrongLength length expected => s!"invalid length {length}, expected {expected}"
  | missingField name => s!"missing field `{name}`"
  | duplicateField name => s!"duplicate field `{name}`"
  | unknownField name known =>
    s!"unknown field `{name}`, expected " ++ " or ".intercalate (known.map fun k => s!"`{k}`")

/-- A step from a part of a document to one of its own parts. -/
inductive Step where
  | key (name : String)
  | index (i : Nat)
  | someMember
deriving DecidableEq, Repr

/-- The text of a path that goes on after other steps, or begins where `first` holds.  A dot stands
before each member but the first step. -/
def pathFrom (first : Bool) : List Step → String
  | [] => ""
  | .key name :: rest => (if first then "" else ".") ++ name ++ pathFrom false rest
  | .index i :: rest => s!"[{i}]" ++ pathFrom false rest
  | .someMember :: rest => (if first then "?" else ".?") ++ pathFrom false rest

/-- The text of a path.  The whole document is written as a dot. -/
def pathText : List Step → String
  | [] => "."
  | steps => pathFrom true steps

def byteCount : List Char → Nat
  | [] => 0
  | c :: rest => c.utf8Size + byteCount rest

/-- Something wrong with a text. -/
structure Fault where
  cause : Cause
  /-- How many bytes of the text are left behind the place. -/
  left : Nat
  /-- The part of the document that was being read. -/
  path : List Step
deriving DecidableEq, Repr

namespace Fault

def here (cause : Cause) (rest : List Char) : Fault := ⟨cause, byteCount rest, []⟩

/-- A fault behind the next byte, or at the end of the text. -/
def next (cause : Cause) (rest : List Char) : Fault := ⟨cause, byteCount rest - 1, []⟩

def within (step : Step) (fault : Fault) : Fault := { fault with path := step :: fault.path }

end Fault

/-- A place in a text: the line, from one, and the number of bytes before it in the line. -/
structure Position where
  line : Nat
  column : Nat
deriving DecidableEq, Repr

def Position.advance (p : Position) : (bytes : Nat) → List Char → Position
  | _, [] => p
  | bytes, c :: rest =>
    if bytes < c.utf8Size then ⟨p.line, p.column + bytes⟩
    else
      let after : Position := if c = '\n' then ⟨p.line + 1, 0⟩ else ⟨p.line, p.column + c.utf8Size⟩
      after.advance (bytes - c.utf8Size) rest

def Fault.position (fault : Fault) (text : List Char) : Position :=
  Position.advance ⟨1, 0⟩ (byteCount text - fault.left) text

def Fault.message (fault : Fault) (text : List Char) : String :=
  let p := fault.position text
  s!"at JSON path {pathText fault.path} → {fault.cause.message} at line {p.line} column {p.column}"

end Conformance.Json
