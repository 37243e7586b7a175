import Conformance.Description.Generic
import Conformance.Value.Basic

/-! What a check says of a value: that it conforms, that it does not and why, or that the
description itself is malformed. -/

namespace Conformance

/-- Why a value does not conform to a type. -/
inductive Mismatch where
  | kind (expected received : String)
  | notNumeric
  /-- The resource is none of the kinds in the description. -/
  | resourceKind (description received : String)
  | genericClass (className argument : String)
  | notObject (className received : String)
  | notInstance (className received : String)
  | inKey (position : Nat) (cause : Mismatch)
  /-- The value of the entry at a position does not conform. -/
  | inValue (position : Nat) (key : Key) (cause : Mismatch)
  | outOfSequence (position : Nat) (key : Key)
  | custom (reason : String)
deriving DecidableEq, Repr

def Mismatch.message : Mismatch → String
  | kind expected received => s!"Expected {expected} but {received} received"
  | notNumeric => "Expected numeric but received string does not represent a valid number"
  | resourceKind description received =>
    s!"Expected resource of type {description} but {received} received"
  | genericClass className argument =>
    s!"Cannot handle {className}<{argument}> in a generic way, "
      ++ s!"this requires a type implementation for {className}"
  | notObject className received => s!"Expected instance of {className} but received {received}"
  | notInstance className received => s!"{received} not an instance of {className}"
  | inKey position cause => s!"Error in key #{position}: {cause.message}"
  | inValue position key cause =>
    s!"Error in value at key #{position} ('{key.display}'): {cause.message}"
  | outOfSequence position key => s!"Expected list but key '{key.display}' at #{position}"
  | custom reason => reason

/-- Why a check does not accept a value. -/
inductive Rejection where
  | mismatch (cause : Mismatch)
  | malformed (cause : DescriptionError)
deriving DecidableEq, Repr

namespace Rejection

def message : Rejection → String
  | mismatch cause => cause.message
  | malformed cause => cause.message

def within (wider : Mismatch → Mismatch) : Rejection → Rejection
  | mismatch cause => .mismatch (wider cause)
  | malformed cause => .malformed cause

end Rejection

abbrev Verdict := Except Rejection Unit

namespace Verdict

def accepted : Verdict := .ok ()

def mismatch (cause : Mismatch) : Verdict := .error (.mismatch cause)

def malformed (cause : DescriptionError) : Verdict := .error (.malformed cause)

def require (condition : Bool) (otherwise : Mismatch) : Verdict :=
  if condition then accepted else mismatch otherwise

end Verdict

end Conformance
