import Conformance.Validation
import Mathlib.Data.List.Basic
import Mathlib.Data.List.Forall2

/-! The validation of one argument against one parameter.  While no alternative is malformed its
outcome is told from the verdicts alone: it reports nothing when some alternative accepts, and one
diagnostic otherwise. -/

namespace Conformance

/-- A parameter whose argument may not be left out. -/
def Parameter.required (name description : String) : Parameter := ⟨name, description, false⟩

/-! ### What verdicts come to -/

namespace Verdict

/-- Why a verdict is a mismatch, where it is one. -/
def cause? : Verdict → Option Mismatch
  | .error (.mismatch cause) => some cause
  | _ => none

/-- The description was understood: the verdict is on the value. -/
def Understood (verdict : Verdict) : Prop := ∀ cause, verdict ≠ .malformed cause

variable {verdict : Verdict}

theorem Understood.cause?_eq_none_iff (h : verdict.Understood) :
    verdict.cause? = none ↔ verdict = .accepted := by
  rcases verdict with (cause | cause) | accepted
  · simp [cause?, accepted]
  · exact absurd rfl (h cause)
  · exact ⟨fun _ => rfl, fun _ => rfl⟩

theorem Understood.mismatch?_eq (h : verdict.Understood) :
    verdict.mismatch? = .ok verdict.cause? := by
  rcases verdict with (cause | cause) | accepted
  · rfl
  · exact absurd rfl (h cause)
  · rfl

theorem mismatch?_eq_ok_iff {cause : Option Mismatch} :
    verdict.mismatch? = .ok cause ↔ verdict.Understood ∧ verdict.cause? = cause := by
  constructor
  · intro h
    have hUnderstood : verdict.Understood := by
      rintro fault rfl
      cases h
    rw [hUnderstood.mismatch?_eq] at h
    exact ⟨hUnderstood, Except.ok.inj h⟩
  · rintro ⟨hUnderstood, rfl⟩
    exact hUnderstood.mismatch?_eq

theorem mismatch?_eq_error_iff {e : SetupError} :
    verdict.mismatch? = .error e ↔ ∃ cause, verdict = .malformed cause ∧ e = .malformed cause := by
  constructor
  · intro h
    rcases verdict with (cause | cause) | accepted
    · cases h
    · exact ⟨cause, rfl, (Except.error.inj h).symm⟩
    · cases h
  · rintro ⟨cause, rfl, rfl⟩
    rfl

end Verdict

/-! ### The first failure of a traversal -/

section Traversal

variable {α β γ ε : Type}

theorem map_eq_ok_iff {x : Except ε α} {g : α → β} {b : β} :
    x.map g = .ok b ↔ ∃ a, x = .ok a ∧ g a = b := by
  cases x <;> simp [Except.map]

theorem map_eq_error_iff {x : Except ε α} {g : α → β} {e : ε} :
    x.map g = .error e ↔ x = .error e := by
  cases x <;> simp [Except.map]

theorem mapError_eq_ok_iff {x : Except ε α} {g : ε → γ} {a : α} :
    x.mapError g = .ok a ↔ x = .ok a := by
  cases x <;> simp [Except.mapError]

theorem mapError_eq_error_iff {x : Except ε α} {g : ε → γ} {e : γ} :
    x.mapError g = .error e ↔ ∃ e', x = .error e' ∧ g e' = e := by
  cases x <;> simp [Except.mapError]

variable {f : α → Except ε β} {l : List α}

theorem mapM_cons_of_error {a : α} {e : ε} (h : f a = .error e) (rest : List α) :
    (a :: rest).mapM f = .error e := by
  rw [List.mapM_cons, h]
  rfl

theorem mapM_cons_of_ok {a : α} {b : β} (h : f a = .ok b) (rest : List α) :
    (a :: rest).mapM f = (rest.mapM f).map (b :: ·) := by
  rw [List.mapM_cons, h]
  cases rest.mapM f <;> rfl

theorem mapM_congr {g : α → Except ε β} (h : ∀ a ∈ l, f a = g a) : l.mapM f = l.mapM g := by
  induction l with
  | nil => rfl
  | cons a rest ih =>
    rw [List.mapM_cons, List.mapM_cons, h a List.mem_cons_self,
      ih fun b hb => h b (List.mem_cons_of_mem a hb)]

theorem map_mapM (g : β → γ) :
    (l.mapM f).map (List.map g) = l.mapM fun a => (f a).map g := by
  induction l with
  | nil => rfl
  | cons a rest ih =>
    rw [List.mapM_cons, List.mapM_cons, ← ih]
    cases f a with
    | error e => rfl
    | ok b => cases rest.mapM f <;> rfl

theorem mapM_eq_ok_iff {results : List β} :
    l.mapM f = .ok results ↔ List.Forall₂ (fun a b => f a = .ok b) l results := by
  induction l generalizing results with
  | nil =>
    rw [List.mapM_nil, List.forall₂_nil_left_iff]
    exact ⟨fun h => (Except.ok.inj h).symm, fun h => h ▸ rfl⟩
  | cons a rest ih =>
    rw [List.forall₂_cons_left_iff]
    cases ha : f a with
    | error e =>
      rw [mapM_cons_of_error ha]
      constructor
      · intro h
        cases h
      · rintro ⟨b, bs, hb, -, -⟩
        cases hb
    | ok b =>
      rw [mapM_cons_of_ok ha, map_eq_ok_iff]
      constructor
      · rintro ⟨bs, hRest, rfl⟩
        exact ⟨b, bs, rfl, ih.mp hRest, rfl⟩
      · rintro ⟨b', bs, hb, hRest, rfl⟩
        cases hb
        exact ⟨bs, ih.mpr hRest, rfl⟩

/-- A traversal fails with the first failure that it meets. -/
theorem mapM_eq_error_iff {e : ε} :
    l.mapM f = .error e ↔ ∃ before a after, l = before ++ a :: after ∧
      (∀ b ∈ before, ∃ result, f b = .ok result) ∧ f a = .error e := by
  induction l with
  | nil =>
    constructor
    · intro h
      cases h
    · rintro ⟨before, a, after, h, -, -⟩
      exact absurd h.symm (List.append_ne_nil_of_right_ne_nil _ (List.cons_ne_nil _ _))
  | cons x rest ih =>
    cases hx : f x with
    | error e' =>
      rw [mapM_cons_of_error hx]
      constructor
      · intro h
        cases h
        exact ⟨[], x, rest, rfl, fun b hb => absurd hb List.not_mem_nil, hx⟩
      · rintro ⟨before, a, after, hSplit, hBefore, ha⟩
        cases before with
        | nil =>
          cases hSplit
          rw [hx] at ha
          cases ha
          rfl
        | cons y before =>
          cases hSplit
          obtain ⟨result, hResult⟩ := hBefore x List.mem_cons_self
          rw [hx] at hResult
          cases hResult
    | ok result =>
      rw [mapM_cons_of_ok hx, map_eq_error_iff, ih]
      constructor
      · rintro ⟨before, a, after, rfl, hBefore, ha⟩
        exact ⟨x :: before, a, after, rfl,
          List.forall_mem_cons.mpr ⟨⟨result, hx⟩, hBefore⟩, ha⟩
      · rintro ⟨before, a, after, hSplit, hBefore, ha⟩
        cases before with
        | nil =>
          cases hSplit
          rw [hx] at ha
          cases ha
        | cons y before =>
          cases hSplit
          exact ⟨before, a, after, rfl, fun b hb => hBefore b (List.mem_cons_of_mem _ hb), ha⟩

end Traversal

namespace Checker

variable {c : Checker} {p : Parameter} {v : Value}

/-- The alternatives that a parameter allows. -/
def alternativesOf (c : Checker) (p : Parameter) : List String :=
  c.grammar.alternatives (c.grammar.read p.description)

/-- Alternatives with the mismatches of a value against them. -/
def outcomes (c : Checker) (alternatives : List String) (v : Value) :
    List (String × Option Mismatch) :=
  alternatives.map fun alternative => (alternative, (c.check alternative v).cause?)

/-- An alternative with the mismatch of a value against it. -/
def alternativeOutcome (c : Checker) (v : Value) (a : String) :
    Except SetupError (String × Option Mismatch) :=
  (c.check a v).mismatch?.map (a, ·)

theorem alternativeOutcome_eq_ok_iff {a : String} {outcome : String × Option Mismatch} :
    c.alternativeOutcome v a = .ok outcome ↔
      (c.check a v).Understood ∧ (a, (c.check a v).cause?) = outcome := by
  simp only [alternativeOutcome, map_eq_ok_iff, Verdict.mismatch?_eq_ok_iff, and_assoc,
    exists_and_left, exists_eq_left']

theorem alternativeOutcome_eq_error_iff {a : String} {e : SetupError} :
    c.alternativeOutcome v a = .error e ↔
      ∃ cause, c.check a v = .malformed cause ∧ e = .malformed cause := by
  rw [alternativeOutcome, map_eq_error_iff, Verdict.mismatch?_eq_error_iff]

theorem validateArgument_eq_map :
    c.validateArgument p v =
      ((c.alternativesOf p).mapM (c.alternativeOutcome v)).map (conclude p) := by
  have hStep : c.alternativeOutcome v = fun a => do return (a, ← (c.check a v).mismatch?) := by
    funext a
    rw [alternativeOutcome]
    cases (c.check a v).mismatch? <;> rfl
  rw [validateArgument, alternativesOf, hStep]
  cases List.mapM (m := Except SetupError) _ _ <;> rfl

theorem validateArgument_eq_error_iff {e : SetupError} :
    c.validateArgument p v = .error e ↔
      ∃ earlier a later cause, c.alternativesOf p = earlier ++ a :: later ∧
        (∀ b ∈ earlier, (c.check b v).Understood) ∧ c.check a v = .malformed cause ∧
        e = .malformed cause := by
  simp only [validateArgument_eq_map, map_eq_error_iff, mapM_eq_error_iff,
    alternativeOutcome_eq_error_iff, alternativeOutcome_eq_ok_iff, exists_and_left, exists_eq',
    and_true]

theorem validateArgument_eq_ok_iff {line : Option Diagnostic} :
    c.validateArgument p v = .ok line ↔
      (∀ a ∈ c.alternativesOf p, (c.check a v).Understood) ∧
        conclude p (c.outcomes (c.alternativesOf p) v) = line := by
  simp only [validateArgument_eq_map, map_eq_ok_iff, mapM_eq_ok_iff, alternativeOutcome_eq_ok_iff,
    List.forall₂_and_left, and_assoc, exists_and_left]
  refine and_congr_right fun _ => ?_
  constructor
  · rintro ⟨outcomes, hOutcomes, rfl⟩
    rw [← List.forall₂_map_left_iff (f := fun a => (a, (c.check a v).cause?)),
      List.forall₂_eq_eq_eq] at hOutcomes
    rw [← hOutcomes]
    rfl
  · rintro rfl
    refine ⟨_, ?_, rfl⟩
    rw [← List.forall₂_map_left_iff (f := fun a => (a, (c.check a v).cause?)),
      List.forall₂_eq_eq_eq]
    rfl

theorem validateArgument_eq (h : ∀ a ∈ c.alternativesOf p, (c.check a v).Understood) :
    c.validateArgument p v = .ok (conclude p (c.outcomes (c.alternativesOf p) v)) :=
  validateArgument_eq_ok_iff.mpr ⟨h, rfl⟩

/-! ### The conclusion from the outcomes -/

theorem conclude_eq_none_iff {outcomes : List (String × Option Mismatch)} :
    conclude p outcomes = none ↔ ∃ o ∈ outcomes, o.2 = none := by
  unfold conclude
  split
  · simp
  · simp only [ite_eq_right_iff, reduceCtorEq, imp_false, List.all_eq_true, not_forall]
    simp

theorem conclude_of_several {outcomes : List (String × Option Mismatch)}
    (h : ∀ o ∈ outcomes, o.2 ≠ none) (hSeveral : outcomes.length ≠ 1) :
    conclude p outcomes = some (.noAlternative p.name p.description) := by
  unfold conclude
  split
  · exact absurd rfl hSeveral
  · rw [if_pos]
    simpa [Option.isSome_iff_ne_none] using h

theorem conclude_of_mismatches
    (h : ∀ a ∈ c.alternativesOf p, ∃ cause, c.check a v = .mismatch cause)
    (hSeveral : (c.alternativesOf p).length ≠ 1) :
    conclude p (c.outcomes (c.alternativesOf p) v) =
      some (.noAlternative p.name p.description) := by
  refine conclude_of_several (fun o ho => ?_) (by rwa [outcomes, List.length_map])
  obtain ⟨a, ha, rfl⟩ := List.mem_map.mp ho
  obtain ⟨cause, hCause⟩ := h a ha
  rw [hCause]
  exact Option.some_ne_none cause

/-! ### The list of diagnostics -/

theorem validate_single (c : Checker) (p : Parameter) (v : Value) :
    c.validate [p] [(p.name, v)] = (c.validateArgument p v).map Option.toList := by
  have hUnknown : unknownArguments [p] [(p.name, v)] = [] := by simp [unknownArguments]
  have hGiven : Entries.get? p.name [(p.name, v)] = some v := by simp [Entries.get?]
  have hParameter : c.validateParameter [(p.name, v)] p = c.validateArgument p v := by
    rw [validateParameter, hGiven]
  have hDistinct : Parameter.repeatedNames [p] = [] := rfl
  rw [validate, hDistinct]
  simp only [hUnknown, ite_self, List.mapM_cons, List.mapM_nil, hParameter]
  rcases c.validateArgument p v with e | (_ | diagnostic) <;> rfl

theorem validate_eq_ok_iff {diagnostics : List Diagnostic} :
    c.validate [p] [(p.name, v)] = .ok diagnostics ↔
      (∀ a ∈ c.alternativesOf p, (c.check a v).Understood) ∧
        (conclude p (c.outcomes (c.alternativesOf p) v)).toList = diagnostics := by
  simp only [validate_single, map_eq_ok_iff, validateArgument_eq_ok_iff, and_assoc,
    exists_and_left, exists_eq_left']

theorem validate_eq (h : ∀ a ∈ c.alternativesOf p, (c.check a v).Understood) :
    c.validate [p] [(p.name, v)] =
      .ok (conclude p (c.outcomes (c.alternativesOf p) v)).toList :=
  validate_eq_ok_iff.mpr ⟨h, rfl⟩

theorem conclude_outcomes_eq_none_iff (h : ∀ a ∈ c.alternativesOf p, (c.check a v).Understood) :
    conclude p (c.outcomes (c.alternativesOf p) v) = none ↔
      ∃ a ∈ c.alternativesOf p, c.check a v = .accepted := by
  simp only [conclude_eq_none_iff, outcomes, List.mem_map, exists_exists_and_eq_and]
  exact exists_congr fun a => and_congr_right fun ha => (h a ha).cause?_eq_none_iff

/-- A single argument passes just when all alternatives are understood and some alternative accepts
it. -/
theorem passes_iff :
    c.validate [p] [(p.name, v)] = .ok [] ↔
      (∀ a ∈ c.alternativesOf p, (c.check a v).Understood) ∧
        ∃ a ∈ c.alternativesOf p, c.check a v = .accepted := by
  rw [validate_eq_ok_iff]
  refine and_congr_right fun h => ?_
  rw [Option.toList_eq_nil_iff, conclude_outcomes_eq_none_iff h]

theorem validate_eq_nil_iff (h : ∀ a ∈ c.alternativesOf p, (c.check a v).Understood) :
    c.validate [p] [(p.name, v)] = .ok [] ↔
      ∃ a ∈ c.alternativesOf p, c.check a v = .accepted :=
  passes_iff.trans (and_iff_right h)

end Checker

end Conformance
