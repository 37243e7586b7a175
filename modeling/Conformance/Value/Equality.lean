import Conformance.Value.Basic

/-! Equality of values.  Floats are compared as numbers, arrays as maps: two arrays are equal when
they have the same number of entries and every key of one has an equal value in the other. -/

namespace Conformance.Value

mutual

def equal : Value → Value → Bool
  | null, null => true
  | bool a, bool b => a = b
  | integer a, integer b => a = b
  | float a, float b => a.equal b
  | string a, string b => a = b
  | array a, array b => a.length = b.length && entriesIn a b
  | object a, object b => a = b
  | callable a, callable b => a = b
  | resource kind id, resource kind' id' => kind = kind' && id = id'
  | _, _ => false

/-- Whether every entry has a counterpart with an equal value among `others`. -/
def entriesIn : List (Key × Value) → List (Key × Value) → Bool
  | [], _ => true
  | (key, value) :: rest, others =>
    (match Entries.get? key others with
      | some other => equal value other
      | none => false) && entriesIn rest others

end

end Conformance.Value
