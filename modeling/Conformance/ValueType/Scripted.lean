import Conformance.ValueType.Builtin

/-! Types whose answer is written down as text, with places for the generic argument and the kind of
the value.  A place is filled wherever it occurs, from the left and without overlaps. -/

namespace Conformance.Text

/-- Replaces every occurrence of a pattern.  After an occurrence the search goes on behind it; the
counter holds how many of its characters are still to be passed over.  An empty pattern occurs
nowhere. -/
def substituteFrom (pattern replacement : List Char) (passing : Nat) : List Char → List Char
  | [] => []
  | c :: rest =>
    match passing with
    | n + 1 => substituteFrom pattern replacement n rest
    | 0 =>
      if !pattern.isEmpty && pattern.isPrefixOf (c :: rest) then
        replacement ++ substituteFrom pattern replacement (pattern.length - 1) rest
      else c :: substituteFrom pattern replacement 0 rest

def substitute (pattern replacement s : String) : String :=
  String.ofList (substituteFrom pattern.toList replacement.toList 0 s.toList)

end Conformance.Text

namespace Conformance

/-- What a scripted type does with a value. -/
inductive Script where
  /-- Accepts it. -/
  | accept
  /-- Rejects it with a reason. -/
  | mismatch (template : String)
  /-- Finds a description without a name. -/
  | missingName (description : String)
  /-- Answers as the check against another description does. -/
  | delegate (template : String)
deriving DecidableEq, Repr

/-- Fills the places of a template: first the argument, then the kind, so that a place for the kind
inside the argument is filled too. -/
def fillTemplate (template argument kind : String) : String :=
  Text.substitute "\x7bkind\x7d" kind (Text.substitute "\x7binner\x7d" argument template)

/-- What a script does, as an inspection. -/
def Script.inspect (script : Script) (g : Grammar) (argument : String) (v : Value) : Inspection :=
  match script with
  | .accept => .settled .accepted
  | .mismatch template => .settled (.mismatch (.custom (fillTemplate template argument v.kind)))
  | .missingName description => .settled (.malformed (.missingName description))
  | .delegate template => .ask (g.read (fillTemplate template argument v.kind)) v .settled

/-- A type with a name, further names and a script. -/
def ValueType.scripted (name : String) (aliases : List String) (script : Script) : ValueType :=
  ⟨name, aliases, script.inspect⟩

end Conformance
