import Conformance.Checker

/-! Validation of arguments against parameters.  Its outcome is a list of diagnostics, empty when
all arguments conform; a mistake in the declarations themselves takes the place of the list. -/

namespace Conformance

/-- A declared parameter. -/
structure Parameter where
  name : String
  /-- The description of its type, as it was written. -/
  description : String
  /-- Whether the argument may be left out. -/
  optional : Bool := false
deriving DecidableEq, Repr

/-- The texts that repeat an earlier one, in order. -/
def repetitions (earlier : List String) : List String → List String
  | [] => []
  | name :: rest =>
    if name ∈ earlier then name :: repetitions earlier rest else repetitions (name :: earlier) rest

/-- The names that an earlier parameter has already, once for each repetition. -/
def Parameter.repeatedNames (parameters : List Parameter) : List String :=
  repetitions [] (parameters.map Parameter.name)

/-- Arguments by name, in the order in which they were given. -/
abbrev Arguments := List (String × Value)

/-- What is wrong with the arguments. -/
inductive Diagnostic where
  | unknown (name kind : String)
  | missing (name description : String)
  /-- An argument does not conform to the only type its parameter allows. -/
  | mismatch (name alternative : String) (cause : Mismatch)
  /-- An argument conforms to none of the types its parameter allows. -/
  | noAlternative (name description : String)
deriving DecidableEq, Repr

def Diagnostic.message : Diagnostic → String
  | unknown name kind => s!"No parameter definition for argument ${name} of type {kind}"
  | missing name description => s!"Required argument ${name} of type {description} is missing"
  | mismatch name alternative cause =>
    s!"Argument ${name} does not match type '{alternative}': {cause.message}"
  | noAlternative name description =>
    s!"Parameter ${name}: did not match type declaration \"{description}\""

/-- What is wrong with the declarations. -/
inductive SetupError where
  | duplicateParameter (name : String)
  | malformed (cause : DescriptionError)
deriving DecidableEq, Repr

def SetupError.message : SetupError → String
  | duplicateParameter name => s!"Duplicate parameter definition for ${name}"
  | malformed cause => cause.message

/-- The mismatch of a verdict, if it is one; a malformed description is an error. -/
def Verdict.mismatch? : Verdict → Except SetupError (Option Mismatch)
  | .ok () => .ok none
  | .error (.mismatch cause) => .ok (some cause)
  | .error (.malformed cause) => .error (.malformed cause)

namespace Checker

/-- What one parameter's outcome is when its alternatives, in order, have these mismatches.  A
single alternative gives its own reason; several, or none, only say that nothing matched. -/
def conclude (p : Parameter) : List (String × Option Mismatch) → Option Diagnostic
  | [(alternative, cause)] => cause.map (.mismatch p.name alternative)
  | outcomes =>
    if outcomes.all (·.2.isSome) then some (.noAlternative p.name p.description) else none

/-- Validates the argument of one parameter.  All alternatives are checked, also after one of them
has accepted. -/
def validateArgument (c : Checker) (p : Parameter) (v : Value) :
    Except SetupError (Option Diagnostic) := do
  let outcomes ← (c.grammar.alternatives (c.grammar.read p.description)).mapM fun alternative =>
    return (alternative, ← (c.check alternative v).mismatch?)
  return conclude p outcomes

def validateParameter (c : Checker) (arguments : Arguments) (p : Parameter) :
    Except SetupError (Option Diagnostic) :=
  match Entries.get? p.name arguments with
  | some v => c.validateArgument p v
  | none => .ok (if p.optional then none else some (.missing p.name p.description))

def unknownArguments (parameters : List Parameter) (arguments : Arguments) : List Diagnostic :=
  (arguments.filter fun a => a.1 ∉ parameters.map Parameter.name).map fun a =>
    .unknown a.1 a.2.kind

/-- Validates arguments.  A repeated parameter is found before anything is checked; arguments
without a parameter are reported first, then the parameters in the order of their declaration. -/
def validate (c : Checker) (parameters : List Parameter) (arguments : Arguments) :
    Except SetupError (List Diagnostic) :=
  match Parameter.repeatedNames parameters with
  | name :: _ => .error (.duplicateParameter name)
  | [] => do
    let outcomes ← parameters.mapM (c.validateParameter arguments)
    let unknown := if c.policy.reportUnknown then unknownArguments parameters arguments else []
    return unknown ++ outcomes.filterMap id

end Checker

end Conformance
