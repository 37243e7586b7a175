import Conformance.Description.Grammar
import Conformance.Inspection
import Conformance.Text.NumericText

/-! Types of values, and the built-in ones.  A type has a name, further names it is known by, and a
way to inspect a value under a generic argument. -/

namespace Conformance

/-- A type of values. -/
structure ValueType where
  name : String
  aliases : List String
  /-- Inspects a value under a generic argument, which is empty where there is none. -/
  inspect : Grammar → (argument : String) → Value → Inspection

def ValueType.names (t : ValueType) : List String := t.name :: t.aliases

/-- A built-in type. -/
inductive Builtin where
  | any | array | bool | callable | float | integer | number | numeric | object | resource | string
deriving DecidableEq, Repr

namespace Builtin

def all : List Builtin :=
  [any, array, bool, callable, float, integer, number, numeric, object, resource, string]

def name : Builtin → String
  | any => "any"
  | array => "array"
  | bool => "bool"
  | callable => "callable"
  | float => "float"
  | integer => "integer"
  | number => "number"
  | numeric => "numeric"
  | object => "object"
  | resource => "resource"
  | string => "string"

def aliases : Builtin → List String
  | any => ["mixed"]
  | bool => ["boolean"]
  | float => ["double"]
  | integer => ["int"]
  | _ => []

def ofName? (name : String) : Option Builtin := all.find? (·.name = name)

/-- Inspects the entries of an array from a position on, each key before its value.  An empty key
type admits every key. -/
def inspectEntries (keyType valueType : String) (position : Nat) :
    List (Key × Value) → Inspection
  | [] => .settled .accepted
  | (key, value) :: rest =>
    let entry := Inspection.require valueType value (.inValue position key)
      (inspectEntries keyType valueType (position + 1) rest)
    if keyType.isEmpty then entry
    else Inspection.require keyType (.ofKey key) (.inKey position) entry

/-- Inspects an array.  Without an argument its entries may be anything. -/
def inspectArray (g : Grammar) (argument : String) : Value → Inspection
  | .array entries =>
    if argument.isEmpty then .settled .accepted
    else
      let (keyType, valueType) := g.keyValue argument
      inspectEntries keyType valueType 0 entries
  | v => .settled (.mismatch (.kind "array" v.kind))

def judgeNumeric : Value → Verdict
  | .string s => .require (Text.isNumeric s) .notNumeric
  | v => .require v.isNumber (.kind "numeric" v.kind)

/-- Judges a resource.  An argument restricts its kind to the alternatives of the argument. -/
def judgeResource (g : Grammar) (argument : String) : Value → Verdict
  | .resource kind _ =>
    .require (argument.isEmpty || (g.alternatives argument).contains kind)
      (.resourceKind argument kind)
  | v => .mismatch (.kind "resource" v.kind)

/-- Inspects a value by a built-in type.  Only arrays ask for the check of parts. -/
def inspect : Builtin → Grammar → String → Value → Inspection
  | array, g, argument, v => inspectArray g argument v
  | any, _, _, _ => .settled .accepted
  | bool, _, _, v => .settled <| match v with
    | .bool _ => .accepted
    | v => .mismatch (.kind "bool" v.kind)
  | callable, _, _, v => .settled <| match v with
    | .callable _ => .accepted
    | v => .mismatch (.kind "callable" v.kind)
  | float, _, _, v => .settled <| match v with
    | .float _ => .accepted
    | v => .mismatch (.kind "float" v.kind)
  | integer, _, _, v => .settled <| match v with
    | .integer _ => .accepted
    | v => .mismatch (.kind "integer" v.kind)
  | number, _, _, v => .settled (.require v.isNumber (.kind "number (float or integer)" v.kind))
  | numeric, _, _, v => .settled (judgeNumeric v)
  | object, _, _, v => .settled <| match v with
    | .object _ => .accepted
    | v => .mismatch (.kind "object" v.kind)
  | resource, g, argument, v => .settled (judgeResource g argument v)
  | string, _, _, v => .settled <| match v with
    | .string _ => .accepted
    | v => .mismatch (.kind "string" v.kind)

def toType (b : Builtin) : ValueType := ⟨b.name, b.aliases, b.inspect⟩

end Builtin

end Conformance
