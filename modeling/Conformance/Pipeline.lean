import Conformance.Documentation
import Conformance.Load
import Conformance.Validation

/-! Validation with everything given as text. -/

namespace Conformance

/-- Where parameters are declared. -/
inductive Declarations where
  | documentation (text : String)
  | json (text : String)
deriving DecidableEq, Repr

/-- Why texts do not lead to diagnostics. -/
inductive PipelineError where
  | duplicates (e : Documentation.DuplicateDefinitions)
  | load (e : LoadError)
  | setup (e : SetupError)
deriving DecidableEq, Repr

def Declarations.parameters : Declarations → Except PipelineError (List Parameter)
  | documentation text => (Documentation.extract text).mapError .duplicates
  | json text => (Parameter.load text).mapError .load

/-- The policy in a text, or the default where there is none. -/
def chosenPolicy : Option String → Except PipelineError Policy
  | some text => (Policy.load text).mapError .load
  | none => .ok {}

/-- Validates arguments with the built-in types.  The texts are read in the order declarations,
arguments, policy, and the first that cannot be read decides. -/
def validateTexts (declarations : Declarations) (arguments : String) (policy : Option String) :
    Except PipelineError (List Diagnostic) := do
  let parameters ← declarations.parameters
  let arguments ← (Arguments.load arguments).mapError .load
  let policy ← chosenPolicy policy
  let checker : Checker := { policy }
  (checker.validate parameters arguments).mapError .setup

end Conformance
