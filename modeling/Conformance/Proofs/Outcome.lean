import Conformance.Proofs.OneArgument

/-! What a validation comes to: a repeated parameter, else the first description that cannot be
followed, else the lines of its diagnostics.  `Outcome` tells this of parameters and arguments
without the traversals of the validation, the text of each line included, and is met by the result
of the validation and by no other. -/

namespace Conformance

/-! ### Repeated names -/

theorem repetitions_eq_nil_iff {earlier names : List String} :
    repetitions earlier names = [] ↔ names.Nodup ∧ ∀ name ∈ names, name ∉ earlier := by
  induction names generalizing earlier with
  | nil => simp [repetitions]
  | cons x rest ih =>
    rw [repetitions]
    split
    · next hx => simp [hx]
    · next hx =>
      rw [ih, List.nodup_cons, List.forall_mem_cons]
      constructor
      · rintro ⟨hNodup, hFresh⟩
        exact ⟨⟨fun hMem => hFresh x hMem List.mem_cons_self, hNodup⟩, hx,
          fun name hName hMem => hFresh name hName (List.mem_cons_of_mem x hMem)⟩
      · rintro ⟨⟨hNot, hNodup⟩, -, hFresh⟩
        refine ⟨hNodup, fun name hName hMem => ?_⟩
        rcases List.mem_cons.mp hMem with rfl | hMem
        · exact hNot hName
        · exact hFresh name hName hMem

theorem head?_repetitions_eq_some_iff {earlier names : List String} {name : String} :
    (repetitions earlier names).head? = some name ↔
      ∃ before after, names = before ++ name :: after ∧
        repetitions earlier before = [] ∧ (name ∈ earlier ∨ name ∈ before) := by
  induction names generalizing earlier with
  | nil => simp [repetitions]
  | cons x rest ih =>
    rw [repetitions]
    split
    · next hx =>
      constructor
      · intro h
        cases h
        exact ⟨[], rest, rfl, rfl, .inl hx⟩
      · rintro ⟨before, after, hSplit, hDistinct, hRepeated⟩
        cases before with
        | nil =>
          cases hSplit
          rfl
        | cons y before =>
          cases hSplit
          exact absurd hx ((repetitions_eq_nil_iff.mp hDistinct).2 x List.mem_cons_self)
    · next hx =>
      rw [ih]
      constructor
      · rintro ⟨before, after, rfl, hDistinct, hRepeated⟩
        refine ⟨x :: before, after, rfl, ?_, ?_⟩
        · rwa [repetitions, if_neg hx]
        · rw [List.mem_cons, or_left_comm, ← or_assoc, ← List.mem_cons]
          exact hRepeated
      · rintro ⟨before, after, hSplit, hDistinct, hRepeated⟩
        cases before with
        | nil =>
          cases hSplit
          exact absurd (hRepeated.resolve_right List.not_mem_nil) hx
        | cons y before =>
          cases hSplit
          rw [repetitions, if_neg hx] at hDistinct
          refine ⟨before, after, rfl, hDistinct, ?_⟩
          rwa [List.mem_cons, or_left_comm, ← or_assoc, ← List.mem_cons] at hRepeated

/-- The first repetition among the parameters is that of the first parameter whose name an earlier
one has. -/
theorem Parameter.head?_repeatedNames_iff {parameters : List Parameter} {name : String} :
    (repeatedNames parameters).head? = some name ↔
      ∃ before p after, parameters = before ++ p :: after ∧ p.name = name ∧
        (before.map Parameter.name).Nodup ∧ name ∈ before.map Parameter.name := by
  rw [repeatedNames, head?_repetitions_eq_some_iff]
  constructor
  · rintro ⟨names, rest, hSplit, hDistinct, hRepeated⟩
    obtain ⟨before, tail, rfl, rfl, hTail⟩ := List.map_eq_append_iff.mp hSplit
    obtain ⟨p, after, rfl, rfl, -⟩ := List.map_eq_cons_iff.mp hTail
    exact ⟨before, p, after, rfl, rfl, (repetitions_eq_nil_iff.mp hDistinct).1,
      hRepeated.resolve_left List.not_mem_nil⟩
  · rintro ⟨before, p, after, rfl, rfl, hDistinct, hRepeated⟩
    refine ⟨before.map Parameter.name, after.map Parameter.name, by simp, ?_, .inr hRepeated⟩
    exact repetitions_eq_nil_iff.mpr ⟨hDistinct, fun _ _ => List.not_mem_nil⟩

theorem Parameter.repeatedNames_eq_nil_iff {parameters : List Parameter} :
    repeatedNames parameters = [] ↔ (parameters.map Parameter.name).Nodup := by
  rw [repeatedNames, repetitions_eq_nil_iff, and_iff_left fun _ _ => List.not_mem_nil]

namespace Verdict

variable {verdict : Verdict}

theorem Understood.exists_mismatch (h : verdict.Understood) (hNot : verdict ≠ .accepted) :
    ∃ cause, verdict = .mismatch cause := by
  rcases verdict with (cause | cause) | accepted
  · exact ⟨cause, rfl⟩
  · exact absurd rfl (h cause)
  · exact absurd rfl hNot

end Verdict

namespace Checker

variable {c : Checker} {p : Parameter} {v : Value} {parameters : List Parameter}
  {arguments : Arguments}

/-! ### What is to be expected -/

/-- Every alternative of a parameter is understood against its argument, where one is given. -/
def Understands (c : Checker) (arguments : Arguments) (p : Parameter) : Prop :=
  ∀ v, Entries.get? p.name arguments = some v →
    ∀ a ∈ c.alternativesOf p, (c.check a v).Understood

/-- The description of an alternative cannot be followed, and it is the first such alternative of a
parameter with an argument. -/
inductive FirstFault (c : Checker) (arguments : Arguments) (p : Parameter) :
    DescriptionError → Prop where
  | intro {v : Value} {earlier later : List String} {a : String} {cause : DescriptionError}
      (given : Entries.get? p.name arguments = some v)
      (alternatives : c.alternativesOf p = earlier ++ a :: later)
      (understood : ∀ b ∈ earlier, (c.check b v).Understood)
      (malformed : c.check a v = .malformed cause) : FirstFault c arguments p cause

/-- The line on one parameter, if there is one. -/
inductive Reports (c : Checker) (arguments : Arguments) (p : Parameter) :
    Option String → Prop where
  | missing (absent : Entries.get? p.name arguments = none) (required : p.optional = false) :
      Reports c arguments p
        (some s!"Required argument ${p.name} of type {p.description} is missing")
  | omitted (absent : Entries.get? p.name arguments = none) (optional : p.optional = true) :
      Reports c arguments p none
  | accepted {v : Value} {a : String} (given : Entries.get? p.name arguments = some v)
      (mem : a ∈ c.alternativesOf p) (accepted : c.check a v = .accepted) :
      Reports c arguments p none
  | mismatch {v : Value} {a : String} {cause : Mismatch}
      (given : Entries.get? p.name arguments = some v) (single : c.alternativesOf p = [a])
      (mismatch : c.check a v = .mismatch cause) :
      Reports c arguments p
        (some s!"Argument ${p.name} does not match type '{a}': {cause.message}")
  /-- This holds of a description without alternatives, too. -/
  | noAlternative {v : Value} (given : Entries.get? p.name arguments = some v)
      (several : (c.alternativesOf p).length ≠ 1)
      (mismatches : ∀ a ∈ c.alternativesOf p, ∃ cause, c.check a v = .mismatch cause) :
      Reports c arguments p
        (some s!"Parameter ${p.name}: did not match type declaration \"{p.description}\"")

/-- The lines on the arguments that are not among the declared names, in the order of the
arguments. -/
inductive ReportsUnknown (declared : List String) : Arguments → List String → Prop where
  | nil : ReportsUnknown declared [] []
  | declared {name : String} {v : Value} {rest : Arguments} {lines : List String}
      (mem : name ∈ declared) (later : ReportsUnknown declared rest lines) :
      ReportsUnknown declared ((name, v) :: rest) lines
  | unknown {name : String} {v : Value} {rest : Arguments} {lines : List String}
      (not_mem : name ∉ declared) (later : ReportsUnknown declared rest lines) :
      ReportsUnknown declared ((name, v) :: rest)
        (s!"No parameter definition for argument ${name} of type {v.kind}" :: lines)

/-- What a validation comes to, line by line. -/
inductive Outcome (c : Checker) (parameters : List Parameter) (arguments : Arguments) :
    Except SetupError (List String) → Prop where
  | duplicate {before after : List Parameter} {p : Parameter}
      (split : parameters = before ++ p :: after)
      (distinct : (before.map Parameter.name).Nodup)
      (repeated : p.name ∈ before.map Parameter.name) :
      Outcome c parameters arguments (.error (.duplicateParameter p.name))
  | malformed {before after : List Parameter} {p : Parameter} {cause : DescriptionError}
      (distinct : (parameters.map Parameter.name).Nodup)
      (split : parameters = before ++ p :: after)
      (understood : ∀ q ∈ before, c.Understands arguments q)
      (fault : c.FirstFault arguments p cause) :
      Outcome c parameters arguments (.error (.malformed cause))
  | diagnostics {unknown : List String} {lines : List (Option String)}
      (distinct : (parameters.map Parameter.name).Nodup)
      (understood : ∀ p ∈ parameters, c.Understands arguments p)
      (strict : c.policy.reportUnknown = true →
        ReportsUnknown (parameters.map Parameter.name) arguments unknown)
      (lenient : c.policy.reportUnknown = false → unknown = [])
      (reports : List.Forall₂ (c.Reports arguments) parameters lines) :
      Outcome c parameters arguments (.ok (unknown ++ lines.filterMap id))

/-! ### One parameter -/

/-- The line on one parameter, as the validation comes to it. -/
def lineOn (c : Checker) (arguments : Arguments) (p : Parameter) :
    Except SetupError (Option String) :=
  (c.validateParameter arguments p).map (Option.map Diagnostic.message)

/-- While its alternatives are understood, a parameter is concluded on as it is to be reported. -/
theorem reports_iff_conclude (given : Entries.get? p.name arguments = some v)
    (hUnderstood : ∀ a ∈ c.alternativesOf p, (c.check a v).Understood) {line : Option String} :
    c.Reports arguments p line ↔
      (conclude p (c.outcomes (c.alternativesOf p) v)).map Diagnostic.message = line := by
  constructor
  · intro h
    cases h with
    | missing absent => cases given.symm.trans absent
    | omitted absent => cases given.symm.trans absent
    | accepted given' mem accepted =>
      cases Option.some.inj (given.symm.trans given')
      rw [(conclude_outcomes_eq_none_iff hUnderstood).mpr ⟨_, mem, accepted⟩]
      rfl
    | mismatch given' single mismatch =>
      cases Option.some.inj (given.symm.trans given')
      rw [single, outcomes, List.map_singleton, mismatch]
      rfl
    | noAlternative given' several mismatches =>
      cases Option.some.inj (given.symm.trans given')
      rw [conclude_of_mismatches mismatches several]
      rfl
  · rintro rfl
    by_cases hAccepted : ∃ a ∈ c.alternativesOf p, c.check a v = .accepted
    · rw [(conclude_outcomes_eq_none_iff hUnderstood).mpr hAccepted]
      obtain ⟨a, ha, hAccepted⟩ := hAccepted
      exact .accepted given ha hAccepted
    · have hMismatch : ∀ a ∈ c.alternativesOf p, ∃ cause, c.check a v = .mismatch cause :=
        fun a ha => (hUnderstood a ha).exists_mismatch fun h => hAccepted ⟨a, ha, h⟩
      by_cases hSingle : (c.alternativesOf p).length = 1
      · obtain ⟨a, ha⟩ := List.length_eq_one_iff.mp hSingle
        obtain ⟨cause, hCause⟩ := hMismatch a (by simp [ha])
        rw [ha, outcomes, List.map_singleton, hCause]
        exact .mismatch given ha hCause
      · rw [conclude_of_mismatches hMismatch hSingle]
        exact .noAlternative given hSingle hMismatch

theorem lineOn_eq_ok_iff {line : Option String} :
    c.lineOn arguments p = .ok line ↔
      c.Understands arguments p ∧ c.Reports arguments p line := by
  unfold lineOn validateParameter Understands
  cases hGiven : Entries.get? p.name arguments with
  | none =>
    constructor
    · intro h
      refine ⟨fun v hv => (by cases hv), ?_⟩
      cases Except.ok.inj h
      cases hOptional : p.optional with
      | true => exact .omitted hGiven hOptional
      | false => exact .missing hGiven hOptional
    · rintro ⟨-, hReports⟩
      cases hReports with
      | missing absent required =>
        rw [required]
        rfl
      | omitted absent optional =>
        rw [optional]
        rfl
      | accepted given => cases hGiven.symm.trans given
      | mismatch given => cases hGiven.symm.trans given
      | noAlternative given => cases hGiven.symm.trans given
  | some v =>
    simp only [map_eq_ok_iff, validateArgument_eq_ok_iff, and_assoc, exists_and_left,
      exists_eq_left', Option.some.injEq, forall_eq']
    exact and_congr_right fun hUnderstood => (reports_iff_conclude hGiven hUnderstood).symm

theorem validateParameter_eq_error_iff {e : SetupError} :
    c.validateParameter arguments p = .error e ↔
      ∃ cause, c.FirstFault arguments p cause ∧ e = .malformed cause := by
  unfold validateParameter
  cases hGiven : Entries.get? p.name arguments with
  | none =>
    constructor
    · intro h
      cases h
    · rintro ⟨cause, fault, -⟩
      cases fault with
      | intro given => cases hGiven.symm.trans given
  | some v =>
    show c.validateArgument p v = .error e ↔ _
    rw [validateArgument_eq_error_iff]
    constructor
    · rintro ⟨earlier, a, later, cause, hAlternatives, hUnderstood, hMalformed, rfl⟩
      exact ⟨cause, .intro hGiven hAlternatives hUnderstood hMalformed, rfl⟩
    · rintro ⟨cause, fault, rfl⟩
      cases fault with
      | intro given alternatives understood malformed =>
        cases Option.some.inj (hGiven.symm.trans given)
        exact ⟨_, _, _, cause, alternatives, understood, malformed, rfl⟩

theorem exists_validateParameter_eq_ok_iff :
    (∃ line, c.validateParameter arguments p = .ok line) ↔ c.Understands arguments p := by
  constructor
  · rintro ⟨line, h⟩
    exact (lineOn_eq_ok_iff.mp (map_eq_ok_iff.mpr ⟨line, h, rfl⟩)).1
  · intro h
    unfold validateParameter
    cases hGiven : Entries.get? p.name arguments with
    | none => exact ⟨_, rfl⟩
    | some v => exact ⟨_, validateArgument_eq (h v hGiven)⟩

/-! ### Arguments without a parameter -/

theorem unknownArguments_cons_of_mem {a : String × Value}
    (h : a.1 ∈ parameters.map Parameter.name) :
    unknownArguments parameters (a :: arguments) = unknownArguments parameters arguments := by
  rw [unknownArguments, unknownArguments, List.filter_cons_of_neg (by simpa using h)]

theorem unknownArguments_cons_of_not_mem {a : String × Value}
    (h : a.1 ∉ parameters.map Parameter.name) :
    unknownArguments parameters (a :: arguments) =
      .unknown a.1 a.2.kind :: unknownArguments parameters arguments := by
  rw [unknownArguments, unknownArguments, List.filter_cons_of_pos (by simpa using h),
    List.map_cons]

theorem reportsUnknown_iff {lines : List String} :
    ReportsUnknown (parameters.map Parameter.name) arguments lines ↔
      (unknownArguments parameters arguments).map Diagnostic.message = lines := by
  constructor
  · intro h
    induction h with
    | nil => rfl
    | declared mem _ ih => rw [unknownArguments_cons_of_mem mem, ih]
    | unknown not_mem _ ih =>
      rw [unknownArguments_cons_of_not_mem not_mem, List.map_cons, ih]
      rfl
  · rintro rfl
    induction arguments with
    | nil => exact .nil
    | cons a rest ih =>
      by_cases hName : a.1 ∈ parameters.map Parameter.name
      · rw [unknownArguments_cons_of_mem hName]
        exact .declared hName ih
      · rw [unknownArguments_cons_of_not_mem hName]
        exact .unknown hName ih

/-! ### The validation -/

theorem validate_of_repeated {name : String}
    (h : (Parameter.repeatedNames parameters).head? = some name) :
    c.validate parameters arguments = .error (.duplicateParameter name) := by
  obtain ⟨more, hNames⟩ := List.head?_eq_some_iff.mp h
  rw [validate, hNames]

theorem validate_of_distinct (h : (parameters.map Parameter.name).Nodup) :
    c.validate parameters arguments =
      (parameters.mapM (c.validateParameter arguments)).map fun lines =>
        (if c.policy.reportUnknown then unknownArguments parameters arguments else []) ++
          lines.filterMap id := by
  rw [validate, Parameter.repeatedNames_eq_nil_iff.mpr h]
  dsimp only
  cases parameters.mapM (c.validateParameter arguments) <;> rfl

/-- The lines of a validation are those on unknown arguments and those on the parameters. -/
theorem lines_of_distinct (h : (parameters.map Parameter.name).Nodup) :
    (c.validate parameters arguments).map (List.map Diagnostic.message) =
      (parameters.mapM (c.lineOn arguments)).map fun lines =>
        (if c.policy.reportUnknown then
          (unknownArguments parameters arguments).map Diagnostic.message else []) ++
          lines.filterMap id := by
  have hLines : parameters.mapM (c.lineOn arguments) =
      (parameters.mapM (c.validateParameter arguments)).map
        (List.map (Option.map Diagnostic.message)) := (map_mapM _).symm
  rw [validate_of_distinct h, hLines]
  cases parameters.mapM (c.validateParameter arguments) with
  | error e => rfl
  | ok found =>
    refine congrArg Except.ok ?_
    dsimp only
    rw [List.map_append, apply_ite (List.map Diagnostic.message), List.map_nil,
      List.map_filterMap, List.filterMap_map]
    rfl

/-- The lines on unknown arguments are those that the policy asks for. -/
theorem unknown_eq_iff {unknown : List String} :
    (if c.policy.reportUnknown then
      (unknownArguments parameters arguments).map Diagnostic.message else []) = unknown ↔
      (c.policy.reportUnknown = true →
        ReportsUnknown (parameters.map Parameter.name) arguments unknown) ∧
      (c.policy.reportUnknown = false → unknown = []) := by
  cases c.policy.reportUnknown with
  | true => simp [reportsUnknown_iff]
  | false => simp [eq_comm]

theorem mapM_lineOn_eq_ok_iff {lines : List (Option String)} :
    parameters.mapM (c.lineOn arguments) = .ok lines ↔
      (∀ p ∈ parameters, c.Understands arguments p) ∧
        List.Forall₂ (c.Reports arguments) parameters lines := by
  simp only [mapM_eq_ok_iff, lineOn_eq_ok_iff, List.forall₂_and_left]

theorem mapM_validateParameter_eq_error_iff {e : SetupError} :
    parameters.mapM (c.validateParameter arguments) = .error e ↔
      ∃ before p after cause, parameters = before ++ p :: after ∧
        (∀ q ∈ before, c.Understands arguments q) ∧ c.FirstFault arguments p cause ∧
        e = .malformed cause := by
  simp only [mapM_eq_error_iff, exists_validateParameter_eq_ok_iff,
    validateParameter_eq_error_iff, exists_and_left]

theorem Outcome.lines_eq {result : Except SetupError (List String)}
    (h : c.Outcome parameters arguments result) :
    (c.validate parameters arguments).map (List.map Diagnostic.message) = result := by
  cases h with
  | duplicate split distinct repeated =>
    rw [validate_of_repeated
      (Parameter.head?_repeatedNames_iff.mpr ⟨_, _, _, split, rfl, distinct, repeated⟩)]
    rfl
  | malformed distinct split understood fault =>
    rw [map_eq_error_iff, validate_of_distinct distinct, map_eq_error_iff]
    exact mapM_validateParameter_eq_error_iff.mpr ⟨_, _, _, _, split, understood, fault, rfl⟩
  | diagnostics distinct understood strict lenient reports =>
    rw [lines_of_distinct distinct, map_eq_ok_iff]
    refine ⟨_, mapM_lineOn_eq_ok_iff.mpr ⟨understood, reports⟩, ?_⟩
    rw [unknown_eq_iff.mpr ⟨strict, lenient⟩]

theorem outcome_lines (c : Checker) (parameters : List Parameter) (arguments : Arguments) :
    c.Outcome parameters arguments
      ((c.validate parameters arguments).map (List.map Diagnostic.message)) := by
  by_cases hDistinct : (parameters.map Parameter.name).Nodup
  · cases hLines : parameters.mapM (c.lineOn arguments) with
    | error e =>
      have hError : parameters.mapM (c.validateParameter arguments) = .error e := by
        rwa [← map_eq_error_iff (g := List.map (Option.map Diagnostic.message)), map_mapM]
      obtain ⟨before, p, after, cause, split, understood, fault, rfl⟩ :=
        mapM_validateParameter_eq_error_iff.mp hError
      rw [lines_of_distinct hDistinct, hLines]
      exact .malformed hDistinct split understood fault
    | ok lines =>
      obtain ⟨understood, reports⟩ := mapM_lineOn_eq_ok_iff.mp hLines
      obtain ⟨strict, lenient⟩ := unknown_eq_iff.mp rfl
      rw [lines_of_distinct hDistinct, hLines]
      exact .diagnostics hDistinct understood strict lenient reports
  · rw [← Parameter.repeatedNames_eq_nil_iff] at hDistinct
    obtain ⟨name, more, hNames⟩ := List.exists_cons_of_ne_nil hDistinct
    have hHead : (Parameter.repeatedNames parameters).head? = some name := by rw [hNames]; rfl
    obtain ⟨before, p, after, split, rfl, distinct, repeated⟩ :=
      Parameter.head?_repeatedNames_iff.mp hHead
    rw [validate_of_repeated hHead]
    exact .duplicate split distinct repeated

/-- A validation comes, line by line, to what is to be expected of it, and to nothing else. -/
theorem validate_eq_iff (c : Checker) (parameters : List Parameter) (arguments : Arguments)
    (result : Except SetupError (List String)) :
    (c.validate parameters arguments).map (List.map Diagnostic.message) = result ↔
      c.Outcome parameters arguments result := by
  constructor
  · rintro rfl
    exact outcome_lines c parameters arguments
  · exact Outcome.lines_eq

end Checker

end Conformance
