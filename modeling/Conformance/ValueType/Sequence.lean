import Conformance.ValueType.Builtin

/-! Two further types: lists, which are arrays with the keys 0, 1, 2 and so on, and objects that
can be traversed. -/

namespace Conformance.ValueType

/-- The first entry from a position on whose key is not its position. -/
def firstOutOfSequence (position : Nat) : List (Key × Value) → Option (Nat × Key)
  | [] => none
  | (key, _) :: rest =>
    if key = .int (Int64.ofNat position) then firstOutOfSequence (position + 1) rest
    else some (position, key)

/-- Judges whether the keys of an array are their positions. -/
def judgeSequence : Value → Verdict
  | .array entries =>
    match firstOutOfSequence 0 entries with
    | some (position, key) => .mismatch (.outOfSequence position key)
    | none => .accepted
  | _ => .accepted

def arrayDescription (argument : String) : String :=
  if argument.isEmpty then "array" else s!"array<{argument}>"

/-- Arrays with the keys 0, 1, 2 and so on.  What the array type says of the values comes first. -/
def list : ValueType where
  name := "list"
  aliases := []
  inspect g argument v :=
    .require (g.read (arrayDescription argument)) v id (.settled (judgeSequence v))

def traversable : ValueType where
  name := "traversable"
  aliases := []
  inspect _ _ v :=
    let conforms := match v with
      | .object o => o.isA "Traversable"
      | _ => false
    .settled (.require conforms (.kind "Traversable" v.kind))

end Conformance.ValueType
