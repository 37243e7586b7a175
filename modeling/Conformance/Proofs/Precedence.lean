import Conformance.Proofs.OneArgument
import Conformance.Proofs.Registration
import Conformance.ValueType.Sequence

/-! Several types under one name.  The first verdict that is not a mismatch prevails, and the first
mismatch when there is none.  A checker that has types registered never finds a name without types,
so it accepts a value under a registered name only when one of the types does. -/

namespace Conformance

/-- The verdict that prevails among those of several types: the first that accepts or finds the
description malformed, or else the first. -/
def Verdict.prevailing (verdicts : List Verdict) : Option Verdict :=
  (verdicts.find? fun verdict => verdict.cause?.isNone).or verdicts.head?

namespace Verdict

variable {verdict : Verdict} {verdicts : List Verdict}

theorem mem_of_prevailing (h : prevailing verdicts = some verdict) : verdict ∈ verdicts := by
  rcases Option.or_eq_some_iff.mp h with hFound | ⟨-, hHead⟩
  · exact List.mem_of_find?_eq_some hFound
  · exact List.mem_of_mem_head? hHead

theorem exists_prevailing (h : verdicts ≠ []) : ∃ verdict, prevailing verdicts = some verdict := by
  obtain ⟨first, rest, rfl⟩ := List.exists_cons_of_ne_nil h
  rw [prevailing, List.head?_cons]
  cases List.find? (fun verdict => verdict.cause?.isNone) (first :: rest) with
  | none => exact ⟨first, rfl⟩
  | some verdict => exact ⟨verdict, rfl⟩

/-- A mismatch prevails only among mismatches. -/
theorem cause?_of_prevailing (h : prevailing verdicts = some verdict) {other : Verdict}
    (hMem : other ∈ verdicts) (hOther : other.cause? = none) : verdict.cause? = none := by
  rcases Option.or_eq_some_iff.mp h with hFound | ⟨hNone, -⟩
  · have hDecided := List.find?_some hFound
    exact Option.isNone_iff_eq_none.mp hDecided
  · exact absurd (by rw [hOther]; rfl) (List.find?_eq_none.mp hNone other hMem)

end Verdict

open Verdict

namespace Inspection

variable {is : List Inspection}

/-- When every inspection comes to a verdict, going through them comes to the one that prevails. -/
theorem run_firstSettled {answer : String → Value → Option Verdict} {verdicts : List Verdict}
    (h : is.map (fun i => i.run answer) = verdicts.map some) (earlier : Option Mismatch) :
    (firstSettled earlier is).run answer =
      some (((verdicts.find? fun verdict => verdict.cause?.isNone).or
        ((earlier.map mismatch).or verdicts.head?)).getD accepted) := by
  induction is generalizing verdicts earlier with
  | nil =>
    obtain rfl := List.map_eq_nil_iff.mp h.symm
    cases earlier <;> rfl
  | cons i rest ih =>
    obtain ⟨verdict, later, rfl, hVerdict, hRest⟩ := List.map_eq_cons_iff.mp h.symm
    have hFirst : i.run answer = some verdict := hVerdict.symm
    rw [firstSettled, run_andThen, hFirst, Option.bind_some]
    rcases verdict with (cause | cause) | ⟨⟩
    · rw [ih hRest.symm]
      cases earlier <;> rfl
    · rfl
    · rfl

theorem exists_run_of_firstSettled {answer : String → Value → Option Verdict}
    {earlier : Option Mismatch} (hAny : is ≠ [] ∨ earlier.isSome)
    (h : (firstSettled earlier is).run answer = some accepted) :
    ∃ i ∈ is, i.run answer = some accepted := by
  induction is generalizing earlier with
  | nil =>
    obtain ⟨cause, rfl⟩ := Option.isSome_iff_exists.mp (hAny.resolve_left (absurd rfl))
    cases h
  | cons i rest ih =>
    rw [firstSettled, run_andThen] at h
    cases hFirst : i.run answer with
    | none =>
      rw [hFirst] at h
      cases h
    | some verdict =>
      rw [hFirst, Option.bind_some] at h
      rcases verdict with (cause | cause) | ⟨⟩
      · have hSome : (earlier.or (some cause)).isSome := by cases earlier <;> rfl
        obtain ⟨j, hj, hAccepted⟩ := ih (.inr hSome) h
        exact ⟨j, List.mem_cons_of_mem i hj, hAccepted⟩
      · cases h
      · exact ⟨i, List.mem_cons_self, hFirst⟩

end Inspection

open Inspection

namespace Checker

/-- Makes a registration. -/
def register (c : Checker) : Registration → Checker
  | .own t => c.add t
  | .under name t => c.addAs name t

/-- The checker after a run of registrations. -/
def registerAll (c : Checker) (registrations : List Registration) : Checker :=
  registrations.foldl register c

/-- A checker as it starts, with the built-in types, and after any run of registrations. -/
def Reached (c : Checker) : Prop :=
  ∃ policy grammar registrations, c = ({ policy, grammar } : Checker).registerAll registrations

theorem catalogue_registerAll (c : Checker) (registrations : List Registration) :
    (c.registerAll registrations).catalogue = c.catalogue.registerAll registrations := by
  induction registrations generalizing c with
  | nil => rfl
  | cons r rest ih =>
    rw [registerAll, List.foldl_cons]
    refine (ih (c.register r)).trans ?_
    cases r <;> rfl

theorem Reached.exists_records {c : Checker} (hc : c.Reached) :
    ∃ log, c.catalogue.Records log := by
  obtain ⟨policy, grammar, registrations, rfl⟩ := hc
  rw [catalogue_registerAll]
  exact ⟨_, Catalogue.records_builtins.registerAll registrations⟩

/-- The verdict of one type on a value under a generic argument, when the checks that it asks for
may stand up to `budget` inside one another. -/
def judgeWithin (c : Checker) (budget : Nat) (t : ValueType) (argument : String) (v : Value) :
    Option Verdict :=
  (t.inspect c.grammar argument v).run (c.checkWithin budget)

variable {c : Checker} {d name : String} {types : List ValueType}

theorem checkWithin_of_check {v : Value} (h : c.check d v = .accepted) :
    c.checkWithin (budget d) d v = some .accepted := by
  rw [check] at h
  cases hRun : c.checkWithin (budget d) d v with
  | none =>
    rw [hRun] at h
    cases h
  | some verdict =>
    rw [hRun] at h
    exact congrArg some h

/-- Under a registered name there are types.  When each of them comes to a verdict, with up to `n`
checks inside one another, the check comes to the verdict that prevails; and it accepts only what
one of the types accepts. -/
theorem check_eq_prevailing (hc : c.Reached)
    (hDepth : Description.nestingDepth d ≤ c.policy.maxDepth)
    (hName : c.grammar.outerName d = .ok name) (hTypes : c.catalogue.find? name = some types)
    (v : Value) :
    types ≠ [] ∧
    (∀ n verdicts,
      types.map (fun t => c.judgeWithin n t (c.grammar.argument d) v) = verdicts.map some →
      c.checkWithin (n + 1) d v = prevailing verdicts ∧
      (n < budget d → some (c.check d v) = prevailing verdicts)) ∧
    (c.check d v = .accepted →
      ∃ t ∈ types, ∃ n, c.judgeWithin n t (c.grammar.argument d) v = some .accepted) := by
  obtain ⟨log, hLog⟩ := hc.exists_records
  have hAny := hLog.types_ne_nil hTypes
  have hInspect := inspect_of_found hDepth hName hTypes v
  refine ⟨hAny, fun n verdicts hVerdicts => ?_, fun hAccepted => ?_⟩
  · have hSome : verdicts ≠ [] := by
      rintro rfl
      exact hAny (List.map_eq_nil_iff.mp hVerdicts)
    obtain ⟨verdict, hPrevails⟩ := exists_prevailing hSome
    -- With types under the name the verdict never falls back to acceptance.
    have hRun : c.checkWithin (n + 1) d v = some verdict := by
      rw [checkWithin, hInspect, run_firstSettled (by rwa [List.map_map]) none]
      exact congrArg (fun found => some (Option.getD found accepted)) hPrevails
    rw [hPrevails]
    exact ⟨hRun, fun hBudget => congrArg some (check_eq_of_checkWithin hBudget hRun)⟩
  · have hRun := checkWithin_of_check hAccepted
    rw [show budget d = (d.length + spareChecks) + 1 by unfold budget; omega, checkWithin,
      hInspect] at hRun
    obtain ⟨i, hi, hFirst⟩ := exists_run_of_firstSettled (.inl (by simpa using hAny)) hRun
    obtain ⟨t, ht, rfl⟩ := List.mem_map.mp hi
    exact ⟨t, ht, _, hFirst⟩

/-- The checker that takes objects that can be traversed for arrays, too. -/
def withTraversables : Checker := ({} : Checker).registerAll [.under "array" .traversable]

/-- An object that can be traversed is accepted by the second type of its name; of an integer, which
neither accepts, the first one speaks. -/
theorem check_eq_prevailing_traversables :
    withTraversables.check "array" (.object ⟨"ShimCollection", ["Traversable"]⟩) = .accepted ∧
      withTraversables.check "array" (.integer 1) = .mismatch (.kind "array" "integer") := by
  have hc : withTraversables.Reached := ⟨{}, .standard, [.under "array" .traversable], rfl⟩
  have hTypes : withTraversables.catalogue.find? "array" =
      some [Builtin.array.toType, .traversable] := rfl
  have hPrevailing := fun v => check_eq_prevailing hc (d := "array") (by decide) rfl hTypes v
  constructor
  · have hObject := (hPrevailing (.object ⟨"ShimCollection", ["Traversable"]⟩)).2.1 0
      [.mismatch (.kind "array" "object<ShimCollection>"), .accepted] rfl
    exact Option.some.inj (hObject.2 (by decide))
  · have hInteger := (hPrevailing (.integer 1)).2.1 0
      [.mismatch (.kind "array" "integer"), .mismatch (.kind "Traversable" "integer")] rfl
    exact Option.some.inj (hInteger.2 (by decide))

end Checker

end Conformance
