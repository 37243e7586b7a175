import Conformance.Json.Fault
import Conformance.Value.Basic

/-! JSON documents. -/

namespace Conformance.Json

/-- A JSON document.  The members of an object stand in the order of their keys' first occurrence.
-/
inductive Document where
  | null
  | bool (b : Bool)
  | integer (i : Int)
  | float (x : Binary64)
  | string (s : String)
  | list (items : List Document)
  | object (members : List (String × Document))

namespace Document

def found : Document → Found
  | null => .null
  | bool b => .bool b
  | integer i => .integer i
  | float x => .float x
  | string s => .string s
  | list _ => .sequence
  | object _ => .map

mutual

/-- A document as a value.  An integer beyond 64 bits becomes the float nearest to it; lists and
objects become arrays. -/
def toValue : Document → Value
  | null => .null
  | bool b => .bool b
  | integer i => match int64? i with
    | some word => .integer word
    | none => .float (.ofInt i)
  | float x => .float x
  | string s => .string s
  | list items => .list (toValues items)
  | object members => .map (toMembers members)

def toValues : List Document → List Value
  | [] => []
  | d :: rest => d.toValue :: toValues rest

def toMembers : List (String × Document) → List (String × Value)
  | [] => []
  | (key, d) :: rest => (key, d.toValue) :: toMembers rest

end

end Document

end Conformance.Json
