import Conformance.Verdict

/-! The inspection of a value by a type, up to the checks of parts that it asks for.  A type does
not call the checker: it says which description to check against which value, and how to go on
with the verdict.  So the checks that arise inside one another are open to view. -/

namespace Conformance

/-- An inspection. -/
inductive Inspection where
  /-- The inspection is over. -/
  | settled (verdict : Verdict)
  /-- The inspection asks for a check and goes on with its verdict. -/
  | ask (description : String) (value : Value) (next : Verdict → Inspection)

namespace Inspection

/-- Goes on with another inspection once this one is settled. -/
def andThen : Inspection → (Verdict → Inspection) → Inspection
  | settled verdict, next => next verdict
  | ask description value rest, next =>
    .ask description value fun verdict => (rest verdict).andThen next

/-- Asks for a check and goes on if it accepts.  A mismatch is placed in a wider one and settles the
inspection, as does a malformed description. -/
def require (description : String) (value : Value) (wider : Mismatch → Mismatch)
    (next : Inspection) : Inspection :=
  .ask description value fun
    | .ok () => next
    | .error rejection => .settled (.error (rejection.within wider))

/-- Goes through inspections until one accepts or finds a malformed description.  When all mismatch
the first mismatch stands; an earlier one may be given. -/
def firstSettled (earlier : Option Mismatch) : List Inspection → Inspection
  | [] => .settled (match earlier with
    | some cause => .mismatch cause
    | none => .accepted)
  | inspection :: rest => inspection.andThen fun
    | .ok () => .settled .accepted
    | .error (.malformed cause) => .settled (.malformed cause)
    | .error (.mismatch cause) => firstSettled (earlier.or (some cause)) rest

/-- Carries an inspection through, with every question answered.  There is no verdict when an
answer is missing. -/
def run (answer : String → Value → Option Verdict) : Inspection → Option Verdict
  | settled verdict => some verdict
  | ask description value next =>
    match answer description value with
    | some verdict => (next verdict).run answer
    | none => none

/-- Carries an inspection through when every question has an answer. -/
def resolve (answer : String → Value → Verdict) : Inspection → Verdict
  | settled verdict => verdict
  | ask description value next => (next (answer description value)).resolve answer

/-- Whether every check that an inspection can ask for has a property. -/
inductive EachAsk (p : String → Value → Prop) : Inspection → Prop where
  | settled (verdict : Verdict) : EachAsk p (.settled verdict)
  | ask {description : String} {value : Value} {next : Verdict → Inspection}
      (here : p description value) (later : ∀ verdict, EachAsk p (next verdict)) :
      EachAsk p (.ask description value next)

theorem run_andThen (answer : String → Value → Option Verdict) (i : Inspection)
    (next : Verdict → Inspection) :
    (i.andThen next).run answer = (i.run answer).bind fun verdict => (next verdict).run answer := by
  induction i with
  | settled verdict => rfl
  | ask description value rest ih =>
    simp only [andThen, run]
    cases answer description value with
    | none => rfl
    | some verdict => exact ih verdict

theorem run_some (answer : String → Value → Verdict) (i : Inspection) :
    i.run (fun description value => some (answer description value)) = some (i.resolve answer) := by
  induction i with
  | settled verdict => rfl
  | ask description value rest ih => exact ih _

end Inspection

end Conformance
