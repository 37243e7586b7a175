import Conformance.Catalogue
import Conformance.Description.Generic

/-! The checker: it finds the types that a description names and lets them inspect the value.  A
name that is not in the catalogue is the name of a class.  A policy says what is reported and how
deep a description may go. -/

namespace Conformance

/-- The settings of a checker. -/
structure Policy where
  /-- Whether arguments without a parameter are reported. -/
  reportUnknown : Bool := true
  /-- The deepest nesting of brackets that a description may have. -/
  maxDepth : Nat := 32
deriving DecidableEq, Repr

namespace Policy

/-- The policy that does not report arguments without a parameter. -/
def lenient : Policy := { reportUnknown := false }

/-- The settings by name. -/
def summary (p : Policy) : String :=
  s!"ValidatorOptions \x7b strict_unknown_arguments: {p.reportUnknown}, "
    ++ s!"max_nesting_depth: {p.maxDepth} \x7d"

end Policy

/-- A checker of values against descriptions. -/
structure Checker where
  catalogue : Catalogue := .builtins
  policy : Policy := {}
  grammar : Grammar := .standard

namespace Checker

/-- Adds a type under all its names. -/
def add (c : Checker) (t : ValueType) : Checker := { c with catalogue := c.catalogue.add t }

/-- Adds a type under one name. -/
def addAs (c : Checker) (name : String) (t : ValueType) : Checker :=
  { c with catalogue := c.catalogue.addAs name t }

/-- The catalogue and the policy by name. -/
def summary (c : Checker) : String :=
  s!"ArgumentValidator \x7b registry: {c.catalogue.summary}, options: {c.policy.summary} \x7d"

/-- Judges a value by the name of a class, which takes no generic argument. -/
def judgeInstance (className argument : String) (v : Value) : Verdict :=
  if !argument.isEmpty then .mismatch (.genericClass className argument)
  else match v with
    | .object o => .require (o.isA className) (.notInstance className o.className)
    | v => .mismatch (.notObject className v.kind)

/-- Inspects a value under the name and the argument of a description: by each type of that name in
turn, or by the class of that name. -/
def inspectNamed (c : Checker) (name argument : String) (v : Value) : Inspection :=
  match c.catalogue.find? name with
  | some types => .firstSettled none (types.map fun t => t.inspect c.grammar argument v)
  | none => .settled (judgeInstance name argument v)

/-- Inspects a value under a description.  The depth of brackets is looked at first, then the
name. -/
def inspect (c : Checker) (description : String) (v : Value) : Inspection :=
  if c.policy.maxDepth < Description.nestingDepth description then
    .settled (.malformed (.tooDeep description c.policy.maxDepth))
  else match c.grammar.outerName description with
    | .error cause => .settled (.malformed cause)
    | .ok name => c.inspectNamed name (c.grammar.argument description) v

/-- Checks a value with at most `budget` checks inside one another, this one included.  There is no
verdict when they do not suffice. -/
def checkWithin (c : Checker) : (budget : Nat) → String → Value → Option Verdict
  | 0, _, _ => none
  | budget + 1, description, v => (c.inspect description v).run (c.checkWithin budget)

/-- The number of checks inside one another that types may need beyond those which shorten the
description each time.  No chain of types that is meant to end comes near it. -/
def spareChecks : Nat := 1000000

/-- The number of checks inside one another that a description is given. -/
def budget (description : String) : Nat := description.length + 1 + spareChecks

/-- Checks a value against a description. -/
def check (c : Checker) (description : String) (v : Value) : Verdict :=
  (c.checkWithin (budget description) description v).getD (.malformed (.endless description))

/-- The verdict of one type on a value under a generic argument. -/
def judge (c : Checker) (t : ValueType) (argument : String) (v : Value) : Verdict :=
  (t.inspect c.grammar argument v).resolve c.check

end Checker

end Conformance
