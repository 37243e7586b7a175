import Conformance.Entries
import Conformance.Number.Binary64
import Conformance.Text.NumericText

/-! The values that arguments hold, and the words that diagnostics use for their kinds.

The keys of an array are integers of 64 bits and texts; a key made from a text that is the canonical
decimal form of such an integer is that integer.  An object is known by the name of its class and
the names of what the class extends or implements.  A class name is compared without regard to the
case of ASCII letters and to leading backslashes. -/

namespace Conformance

/-- An integer of 64 bits, where the number fits one. -/
def int64? (i : Int) : Option Int64 :=
  if Int64.minValue.toInt ≤ i && i ≤ Int64.maxValue.toInt then some (Int64.ofInt i) else none

/-- A key of an array. -/
inductive Key where
  | int (i : Int64)
  | text (s : String)
deriving DecidableEq, Repr

namespace Key

/-- The key that a text names. -/
def ofText (s : String) : Key :=
  match (Decimal.toInt? s.toList).bind int64? with
  | some i => if Decimal.text i.toInt = s then .int i else .text s
  | none => .text s

/-- How a key is shown. -/
def display : Key → String
  | .int i => Decimal.text i.toInt
  | .text s => s

/-- Naming a key by a text keeps the spelling. -/
theorem display_ofText (s : String) : (ofText s).display = s := by
  unfold ofText
  split
  · split
    · assumption
    · rfl
  · rfl

end Key

def classKey (name : String) : List Char :=
  (name.toList.dropWhile (· = '\\')).map Char.toLower

def sameClass (a b : String) : Bool := classKey a = classKey b

/-- An object. -/
structure Instance where
  className : String
  /-- The parent classes and interfaces. -/
  supertypes : List String
deriving DecidableEq, Repr

namespace Instance

/-- The names of the object's class and of all that it extends or implements. -/
def names (o : Instance) : List String := o.className :: o.supertypes

def isA (o : Instance) (name : String) : Bool := o.names.any (sameClass · name)

end Instance

/-- A value.  An array is a map with the order of insertion. -/
inductive Value where
  | null
  | bool (b : Bool)
  | integer (i : Int64)
  | float (x : Binary64)
  | string (s : String)
  | array (entries : List (Key × Value))
  | object (o : Instance)
  | callable (name : String)
  | resource (kind : String) (id : UInt64)

namespace Value

def kind : Value → String
  | null => "null"
  | bool _ => "boolean"
  | integer _ => "integer"
  | float _ => "float"
  | string _ => "string"
  | array _ => "array"
  | object o => "object<" ++ o.className ++ ">"
  | callable _ => "callable"
  | resource kind _ => "resource<" ++ kind ++ ">"

def isNumber : Value → Bool
  | integer _ => true
  | float _ => true
  | _ => false

def ofKey : Key → Value
  | .int i => .integer i
  | .text s => .string s

def numbered (start : Nat) : List Value → List (Key × Value)
  | [] => []
  | v :: rest => (.int (Int64.ofNat start), v) :: numbered (start + 1) rest

/-- The array with the given values at the keys 0, 1, 2 and so on. -/
def list (items : List Value) : Value := .array (numbered 0 items)

/-- The array with the given members, the keys named by texts. -/
def map (members : List (String × Value)) : Value :=
  .array (Entries.ofPairs (members.map fun m => (Key.ofText m.1, m.2)))

end Value

end Conformance
