import Conformance.Pipeline
import Conformance.Proofs.ArgumentText
import Conformance.Proofs.Extraction
import Conformance.Proofs.ParameterText

/-! The whole run, from texts to lines.  Declarations, arguments and policy are read in this order,
and the first that cannot be read decides.  When all are read, the run comes to what is to be
expected of the built-in types with the parameters, arguments and policy that stand in the texts;
what follows a JSON text makes no difference then. -/

namespace Conformance

open Json

/-! ### How a run ends -/

/-- The policy of a run: the one that is loaded, or the default where no text is given. -/
inductive Policy.Chosen : Option String → Policy → Prop where
  | default : Chosen none {}
  | loaded {text : String} {policy : Policy} (load : Policy.load text = .ok policy) :
      Chosen (some text) policy

theorem Policy.Chosen.eq {policy : Option String} {chosen : Policy} (h : Chosen policy chosen) :
    chosenPolicy policy = .ok chosen := by
  cases h with
  | default => rfl
  | loaded load => exact mapError_eq_ok_iff.mpr load

theorem Policy.chosen_or_unreadable (policy : Option String) :
    (∃ chosen, Chosen policy chosen) ∨
      ∃ text e, policy = some text ∧ Policy.load text = .error e := by
  cases policy with
  | none => exact .inl ⟨_, .default⟩
  | some text =>
    cases hLoad : Policy.load text with
    | error e => exact .inr ⟨text, e, rfl, hLoad⟩
    | ok chosen => exact .inl ⟨chosen, .loaded hLoad⟩

/-- How a run over texts ends, line by line. -/
inductive RunsTo (declarations : Declarations) (arguments : String) (policy : Option String) :
    Except PipelineError (List String) → Prop where
  | undeclared {e : PipelineError} (unreadable : declarations.parameters = .error e) :
      RunsTo declarations arguments policy (.error e)
  | noArguments {parameters : List Parameter} {e : LoadError}
      (declared : declarations.parameters = .ok parameters)
      (unreadable : Arguments.load arguments = .error e) :
      RunsTo declarations arguments policy (.error (.load e))
  | noPolicy {parameters : List Parameter} {given : Arguments} {text : String} {e : LoadError}
      (declared : declarations.parameters = .ok parameters)
      (loaded : Arguments.load arguments = .ok given) (asked : policy = some text)
      (unreadable : Policy.load text = .error e) :
      RunsTo declarations arguments policy (.error (.load e))
  | validated {parameters : List Parameter} {given : Arguments} {chosen : Policy}
      {result : Except SetupError (List String)}
      (declared : declarations.parameters = .ok parameters)
      (loaded : Arguments.load arguments = .ok given) (choice : Policy.Chosen policy chosen)
      (outcome : ({ policy := chosen } : Checker).Outcome parameters given result) :
      RunsTo declarations arguments policy (result.mapError .setup)

section Run

variable {declarations : Declarations} {arguments : String} {policy : Option String}
  {parameters : List Parameter} {given : Arguments} {chosen : Policy}

theorem validateTexts_of_undeclared {e : PipelineError} (h : declarations.parameters = .error e) :
    validateTexts declarations arguments policy = .error e := by
  rw [validateTexts, h]
  rfl

theorem validateTexts_of_unreadable {e : LoadError}
    (hDeclared : declarations.parameters = .ok parameters)
    (h : Arguments.load arguments = .error e) :
    validateTexts declarations arguments policy = .error (.load e) := by
  rw [validateTexts, hDeclared, h]
  rfl

theorem validateTexts_of_no_policy {text : String} {e : LoadError}
    (hDeclared : declarations.parameters = .ok parameters)
    (hLoaded : Arguments.load arguments = .ok given) (h : Policy.load text = .error e) :
    validateTexts declarations arguments (some text) = .error (.load e) := by
  rw [validateTexts, hDeclared, hLoaded, chosenPolicy, h]
  rfl

/-- Once all texts are read, what stands in them is validated. -/
theorem validateTexts_of_loaded (hDeclared : declarations.parameters = .ok parameters)
    (hLoaded : Arguments.load arguments = .ok given) (hPolicy : Policy.Chosen policy chosen) :
    validateTexts declarations arguments policy =
      (({ policy := chosen } : Checker).validate parameters given).mapError .setup := by
  rw [validateTexts, hDeclared, hLoaded, hPolicy.eq]
  rfl

theorem lines_of_outcome {result : Except SetupError (List String)}
    (hDeclared : declarations.parameters = .ok parameters)
    (hLoaded : Arguments.load arguments = .ok given) (hPolicy : Policy.Chosen policy chosen)
    (h : ({ policy := chosen } : Checker).Outcome parameters given result) :
    (validateTexts declarations arguments policy).map (List.map Diagnostic.message) =
      result.mapError .setup := by
  rw [validateTexts_of_loaded hDeclared hLoaded hPolicy, ← h.lines_eq]
  cases ({ policy := chosen } : Checker).validate parameters given <;> rfl

theorem RunsTo.lines_eq {result : Except PipelineError (List String)}
    (h : RunsTo declarations arguments policy result) :
    (validateTexts declarations arguments policy).map (List.map Diagnostic.message) = result := by
  cases h with
  | undeclared unreadable =>
    rw [validateTexts_of_undeclared unreadable]
    rfl
  | noArguments declared unreadable =>
    rw [validateTexts_of_unreadable declared unreadable]
    rfl
  | noPolicy declared loaded asked unreadable =>
    rw [asked, validateTexts_of_no_policy declared loaded unreadable]
    rfl
  | validated declared loaded choice outcome =>
    exact lines_of_outcome declared loaded choice outcome

end Run

theorem runsTo_lines (declarations : Declarations) (arguments : String) (policy : Option String) :
    RunsTo declarations arguments policy
      ((validateTexts declarations arguments policy).map (List.map Diagnostic.message)) := by
  cases hDeclared : declarations.parameters with
  | error e =>
    rw [validateTexts_of_undeclared hDeclared]
    exact .undeclared hDeclared
  | ok parameters =>
    cases hLoaded : Arguments.load arguments with
    | error e =>
      rw [validateTexts_of_unreadable hDeclared hLoaded]
      exact .noArguments hDeclared hLoaded
    | ok given =>
      rcases Policy.chosen_or_unreadable policy with ⟨chosen, hChosen⟩ | ⟨text, e, rfl, hPolicy⟩
      · have hOutcome := Checker.outcome_lines { policy := chosen } parameters given
        rw [lines_of_outcome hDeclared hLoaded hChosen hOutcome]
        exact .validated hDeclared hLoaded hChosen hOutcome
      · rw [validateTexts_of_no_policy hDeclared hLoaded hPolicy]
        exact .noPolicy hDeclared hLoaded rfl hPolicy

/-- A run ends in one way, and its lines are those of that end. -/
theorem validateTexts_iff (declarations : Declarations) (arguments : String)
    (policy : Option String) (result : Except PipelineError (List String)) :
    (validateTexts declarations arguments policy).map (List.map Diagnostic.message) = result ↔
      RunsTo declarations arguments policy result := by
  constructor
  · rintro rfl
    exact runsTo_lines declarations arguments policy
  · exact RunsTo.lines_eq

example :
    (validateTexts (.documentation "@param array<int> $a ?@var int $b")
      "\x7b\"c\":null,\"a\":[1,true]\x7d" none).map (List.map Diagnostic.message) =
    .ok ["No parameter definition for argument $c of type null",
      "Argument $a does not match type 'array<int>': " ++
        "Error in value at key #1 ('1'): Expected integer but boolean received"] := by
  decide +kernel

/-! ### Texts that are written -/

/-- Declarations of parameters: text that renders them, under distinct names, or a list of objects
that write them, in any layout. -/
inductive Declarations.Declare : Declarations → List Parameter → Prop where
  | documentation {text : String} {parameters : List Parameter}
      (distinct : (parameters.map Parameter.name).Nodup)
      (renders : Documentation.Renders parameters text.toList) :
      Declare (.documentation text) parameters
  | json {objects : List Members} {text : String} {parameters : List Parameter}
      (writes : List.Forall₂ Parameter.Writes objects parameters)
      (laid : Laid (Written.list (objects.map .object)).tokens text.toList) :
      Declare (.json text) parameters

/-- A text in which arguments stand, as the members of an object in any layout. -/
inductive Arguments.StandIn (arguments : Arguments) (text : String) : Prop where
  | intro {members : Members} (writes : Arguments.Writes members arguments)
      (distinct : (arguments.map Prod.fst).Nodup) (keyed : ∀ a ∈ arguments, a.2.Keyed)
      (normal : ∀ a ∈ arguments, a.2.Normal)
      (depth : (Written.object members).depth ≤ greatestDepth)
      (laid : Laid (Written.object members).tokens text.toList) : StandIn arguments text

theorem Declarations.Declare.parameters_eq {declarations : Declarations}
    {parameters : List Parameter} (h : declarations.Declare parameters) :
    declarations.parameters = .ok parameters := by
  cases h with
  | documentation distinct renders =>
    exact mapError_eq_ok_iff.mpr (Documentation.extract_eq_ok_iff.mpr
      ⟨Documentation.declarations_of_renders renders, distinct⟩)
  | json writes laid => exact mapError_eq_ok_iff.mpr (Parameter.load_of_writes writes laid)

theorem Arguments.StandIn.load_eq {arguments : Arguments} {text : String}
    (h : arguments.StandIn text) : Arguments.load text = .ok arguments := by
  obtain ⟨writes, distinct, keyed, normal, depth, laid⟩ := h
  obtain ⟨pairs, hGives, hMembers⟩ := writes.exists_gives distinct keyed normal depth
  obtain ⟨rest, hRead⟩ := hGives.exists_read laid
  exact Arguments.load_eq_ok_iff.mpr ⟨pairs, rest, hRead, hMembers⟩

theorem mapError_setup_inj {x y : Except SetupError (List String)} :
    x.mapError PipelineError.setup = y.mapError .setup ↔ x = y := by
  cases x <;> cases y <;> simp [Except.mapError]

/-- From texts in which parameters and arguments stand, the run comes to what is to be expected of
these, whatever the layout and the spelling. -/
theorem validateTexts_of_written {declarations : Declarations} {arguments : String}
    {policy : Option String} {parameters : List Parameter} {given : Arguments} {chosen : Policy}
    (hDeclare : declarations.Declare parameters) (hGiven : given.StandIn arguments)
    (hPolicy : Policy.Chosen policy chosen) (result : Except SetupError (List String)) :
    (validateTexts declarations arguments policy).map (List.map Diagnostic.message) =
        result.mapError .setup ↔
      ({ policy := chosen } : Checker).Outcome parameters given result := by
  constructor
  · intro h
    have hOutcome := Checker.outcome_lines { policy := chosen } parameters given
    rw [lines_of_outcome hDeclare.parameters_eq hGiven.load_eq hPolicy hOutcome,
      mapError_setup_inj] at h
    exact h ▸ hOutcome
  · exact lines_of_outcome hDeclare.parameters_eq hGiven.load_eq hPolicy

/-! ### Texts with something behind them -/

/-- The declarations with more text behind them, where they are in JSON. -/
def Declarations.followedBy (more : String) : Declarations → Declarations
  | documentation text => .documentation text
  | json text => .json (text ++ more)

theorem Declarations.parameters_followedBy {declarations : Declarations}
    {parameters : List Parameter} (h : declarations.parameters = .ok parameters) (more : String) :
    (declarations.followedBy more).parameters = .ok parameters := by
  cases declarations with
  | documentation text => exact h
  | json text =>
    exact mapError_eq_ok_iff.mpr (Parameter.loadsFirst.append (mapError_eq_ok_iff.mp h) more)

theorem Policy.Chosen.append {policy : Option String} {chosen : Policy} (h : Chosen policy chosen)
    (more : String) : Chosen (policy.map (· ++ more)) chosen := by
  cases h with
  | default => exact .default
  | loaded load => exact .loaded (Policy.loadsFirst.append load more)

/-- A run that can load all of its texts does the same when more text follows them. -/
theorem validateTexts_append {declarations : Declarations} {arguments : String}
    {policy : Option String}
    (h : ∀ e, validateTexts declarations arguments policy ≠ .error (.load e))
    (more others further : String) :
    validateTexts (declarations.followedBy more) (arguments ++ others)
        (policy.map (· ++ further)) =
      validateTexts declarations arguments policy := by
  cases hDeclared : declarations.parameters with
  | error e =>
    cases declarations with
    | documentation text =>
      rw [validateTexts_of_undeclared hDeclared]
      exact validateTexts_of_undeclared hDeclared
    | json text =>
      obtain ⟨e, -, rfl⟩ := mapError_eq_error_iff.mp hDeclared
      exact absurd (validateTexts_of_undeclared hDeclared) (h e)
  | ok parameters =>
    cases hLoaded : Arguments.load arguments with
    | error e => exact absurd (validateTexts_of_unreadable hDeclared hLoaded) (h e)
    | ok given =>
      rcases Policy.chosen_or_unreadable policy with ⟨chosen, hChosen⟩ | ⟨text, e, rfl, hPolicy⟩
      · rw [validateTexts_of_loaded hDeclared hLoaded hChosen]
        exact validateTexts_of_loaded (Declarations.parameters_followedBy hDeclared more)
          (Arguments.loadsFirst.append hLoaded others) (hChosen.append further)
      · exact absurd (validateTexts_of_no_policy hDeclared hLoaded hPolicy) (h e)

end Conformance
