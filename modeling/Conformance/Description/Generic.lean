/-! Generic types: the name before the first `<`, the argument between it and a closing `>`, the cut
of an argument into key and value at its first comma outside brackets, and the depth of brackets.
The depth never goes below zero: a stray `>` counts for nothing.  A description that cannot be
followed has an error that says why. -/

namespace Conformance

/-- The fault of a type description. -/
inductive DescriptionError where
  | missingName (description : String)
  | tooDeep (description : String) (limit : Nat)
  /-- Types keep asking for further checks inside one another, with no end in sight. -/
  | endless (description : String)
deriving DecidableEq, Repr

def DescriptionError.message : DescriptionError → String
  | missingName description => s!"Unable to extract outer most type from '{description}'"
  | tooDeep description limit =>
    s!"Type description '{description}' exceeds the maximum nesting depth of {limit}"
  | endless description => s!"Type description '{description}' never comes to an end"

namespace Description

def level (depth : Nat) (c : Char) : Nat :=
  if c = '<' then depth + 1 else if c = '>' then depth - 1 else depth

/-- The greatest depth reached on the way through a text, after the first character or later. -/
def deepestFrom (depth : Nat) : List Char → Nat
  | [] => 0
  | c :: rest => max (level depth c) (deepestFrom (level depth c) rest)

def nestingDepth (description : String) : Nat := deepestFrom 0 description.toList

def nameChars (s : List Char) : List Char := s.takeWhile (· ≠ '<')

/-- The part between the first `<` and the last character, when that is `>`; else nothing. -/
def argumentChars (s : List Char) : List Char :=
  match s.dropWhile (· ≠ '<') with
  | _ :: body => if body.getLast? = some '>' then body.dropLast else []
  | [] => []

/-- The parts before and after the first comma at depth zero. -/
def cutAtComma (depth : Nat) : List Char → Option (List Char × List Char)
  | [] => none
  | c :: rest =>
    if c = ',' ∧ depth = 0 then some ([], rest)
    else (cutAtComma (level depth c) rest).map fun (key, value) => (c :: key, value)

def outerName (description : String) : Except DescriptionError String :=
  match nameChars description.toList with
  | [] => .error (.missingName description)
  | name => .ok (String.ofList name)

def argument (description : String) : String :=
  String.ofList (argumentChars description.toList)

/-- The key and value types of a generic argument; without a comma all of it is the value type. -/
def keyValue (description : String) : String × String :=
  match cutAtComma 0 description.toList with
  | some (key, value) => (String.ofList key, String.ofList value)
  | none => ("", description)

end Description

end Conformance
