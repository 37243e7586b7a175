import Conformance.Json.Record
import Conformance.Validation

/-! Parameters, arguments and policies from JSON text.  Only the first value of the text counts;
whatever follows it is not looked at. -/

namespace Conformance

/-- Why a text cannot be loaded. -/
inductive LoadError where
  /-- The text is malformed, or a value in it is of the wrong sort. -/
  | unreadable (text : String) (fault : Json.Fault)
  | notAnObject (kind : String)
deriving DecidableEq, Repr

def LoadError.message : LoadError → String
  | unreadable text fault => fault.message text.toList
  | notAnObject kind => s!"expected a JSON object of arguments but found {kind}"

def Json.Reader.load {α : Type} (r : Json.Reader α) (text : String) : Except LoadError α :=
  match r.read text.toList with
  | .ok (a, _) => .ok a
  | .error fault => .error (.unreadable text fault)

namespace Parameter

/-- A parameter, as far as it has been read. -/
structure Draft where
  name : Option String := none
  description : Option String := none
  optional : Option Bool := none

/-- The parameter of a draft.  Name and type must be there. -/
def Draft.finish (d : Draft) : Except String Parameter :=
  match d.name, d.description with
  | none, _ => .error "name"
  | _, none => .error "type"
  | some name, some description => .ok ⟨name, description, d.optional.getD false⟩

/-- A parameter has a name, a type, and a mark when it is optional; fields with other names mean
nothing. -/
def shape : Json.Shape Draft Parameter where
  title := "struct Parameter"
  fields := [
    ⟨"name", (·.name.isSome), fun d => Json.Reader.string.map fun s => { d with name := some s }⟩,
    ⟨"type", (·.description.isSome), fun d =>
      Json.Reader.string.map fun s => { d with description := some s }⟩,
    ⟨"optional", (·.optional.isSome), fun d =>
      Json.Reader.bool.map fun b => { d with optional := some b }⟩]
  others := .skipped
  blank := {}
  finish := Draft.finish

def load (text : String) : Except LoadError (List Parameter) :=
  (Json.Reader.sequence shape.reader).load text

end Parameter

namespace Policy

/-- A policy, as far as it has been read. -/
structure Draft where
  reportUnknown : Option Bool := none
  maxDepth : Option Nat := none

/-- The policy of a draft, with the default for each setting that is not there. -/
def Draft.finish (d : Draft) : Policy :=
  { reportUnknown := d.reportUnknown.getD ({} : Policy).reportUnknown
    maxDepth := d.maxDepth.getD ({} : Policy).maxDepth }

def shape : Json.Shape Draft Policy where
  title := "struct ValidatorOptions"
  fields := [
    ⟨"strict_unknown_arguments", (·.reportUnknown.isSome), fun d =>
      Json.Reader.bool.map fun b => { d with reportUnknown := some b }⟩,
    ⟨"max_nesting_depth", (·.maxDepth.isSome), fun d =>
      Json.Reader.size.map fun n => { d with maxDepth := some n }⟩]
  others := .refused
  blank := {}
  finish d := .ok d.finish

def load (text : String) : Except LoadError Policy := shape.reader.load text

end Policy

def Arguments.load (text : String) : Except LoadError Arguments :=
  match Json.Document.reader.load text with
  | .error e => .error e
  | .ok (.object members) => .ok (Json.Document.toMembers members)
  | .ok d => .error (.notAnObject d.toValue.kind)

end Conformance
