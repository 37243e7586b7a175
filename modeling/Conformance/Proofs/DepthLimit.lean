import Conformance.Proofs.Dispatch

/-! The limit on the depth of brackets.  A part of a description is at most as deep as the whole, so
a description within the limit is checked as under any larger one: of the checks inside one another
only the outermost can find its description too deep. -/

namespace Conformance

open Description

/-! ### The faults that a verdict can find -/

/-- Every fault that the verdict finds has a property. -/
def Verdict.FaultsIn (F : DescriptionError → Prop) (verdict : Verdict) : Prop :=
  ∀ cause, verdict = .malformed cause → F cause

namespace Verdict

variable {F : DescriptionError → Prop}

@[simp] theorem faultsIn_accepted : FaultsIn F (.ok ()) := by
  intro cause h
  cases h

@[simp] theorem faultsIn_mismatch (cause : Mismatch) : FaultsIn F (.error (.mismatch cause)) := by
  intro cause h
  cases h

theorem faultsIn_malformed_iff {cause : DescriptionError} :
    (malformed cause).FaultsIn F ↔ F cause := by
  constructor
  · intro h
    exact h cause rfl
  · intro h cause' hCause
    cases hCause
    exact h

theorem faultsIn_require (condition : Bool) (otherwise : Mismatch) :
    (require condition otherwise).FaultsIn F := by
  cases condition with
  | true => exact faultsIn_accepted
  | false => exact faultsIn_mismatch otherwise

end Verdict

open Verdict

namespace Inspection

variable {F : DescriptionError → Prop} {answer : String → Value → Verdict} {i : Inspection}

theorem faultsIn_resolve_require {d : String} {v : Value} {next : Inspection}
    (h : (answer d v).FaultsIn F) (hNext : (next.resolve answer).FaultsIn F)
    (wider : Mismatch → Mismatch) : ((require d v wider next).resolve answer).FaultsIn F := by
  rw [require, resolve]
  rcases hAnswer : answer d v with (cause | cause) | accepted
  · exact faultsIn_mismatch (wider cause)
  · rw [hAnswer] at h
    exact h
  · exact hNext

theorem faultsIn_resolve_firstSettled (earlier : Option Mismatch) {is : List Inspection}
    (h : ∀ i ∈ is, (i.resolve answer).FaultsIn F) :
    ((firstSettled earlier is).resolve answer).FaultsIn F := by
  induction is generalizing earlier with
  | nil =>
    cases earlier with
    | none => exact faultsIn_accepted
    | some cause => exact faultsIn_mismatch cause
  | cons i rest ih =>
    have hFirst := h i List.mem_cons_self
    rw [firstSettled, resolve_andThen]
    rcases hVerdict : i.resolve answer with (cause | cause) | accepted
    · exact ih (earlier.or (some cause)) fun j hj => h j (List.mem_cons_of_mem i hj)
    · rw [hVerdict] at hFirst
      exact hFirst
    · exact faultsIn_accepted

theorem EachAsk.resolve_congr {other : String → Value → Verdict}
    (h : i.EachAsk fun d v => answer d v = other d v) : i.resolve answer = i.resolve other := by
  induction h with
  | settled verdict => rfl
  | ask here _ ih =>
    rw [resolve, resolve, here]
    exact ih _

/-- The checks that an inspection asks for when it is answered in a certain way. -/
def asked (answer : String → Value → Verdict) : Inspection → List (String × Value)
  | settled _ => []
  | ask d v next => (d, v) :: (next (answer d v)).asked answer

theorem EachAsk.of_mem_asked {p : String → Value → Prop} (h : i.EachAsk p) {d : String} {v : Value}
    (hMem : (d, v) ∈ i.asked answer) : p d v := by
  induction h with
  | settled verdict => exact absurd hMem List.not_mem_nil
  | ask here _ ih =>
    rcases List.mem_cons.mp hMem with hFirst | hLater
    · cases hFirst
      exact here
    · exact ih _ hLater

end Inspection

open Inspection

/-- An inspection that only makes demands passes on the faults that these find, and finds none
itself. -/
theorem Inspection.Demands.faultsIn_resolve {F : DescriptionError → Prop}
    {answer : String → Value → Verdict} {p : String → Value → Prop} {i : Inspection}
    (h : i.Demands p) (hFaults : ∀ d v, p d v → (answer d v).FaultsIn F) :
    (i.resolve answer).FaultsIn F := by
  induction h with
  | settled sound => exact fun cause hCause => absurd hCause (sound cause)
  | require wider here _ ih => exact faultsIn_resolve_require (hFaults _ _ here) ih wider

namespace Asks

variable {d d' : String} {v v' : Value}

/-- What is asked for is a part of the description. -/
theorem isInfix (h : Asks (argument d) v d' v') : d'.toList <:+: d.toList := by
  refine h.infix_argument.trans ?_
  have hWhole := toList_eq_of_argument_ne h.argument_ne
  generalize nameChars d.toList = name at hWhole
  exact ⟨name ++ ['<'], ['>'], by rw [hWhole]; simp⟩

theorem nestingDepth_le (h : Asks (argument d) v d' v') : nestingDepth d' ≤ nestingDepth d :=
  deepestFrom_le_of_infix h.isInfix

end Asks

theorem Description.eq_missingName_of_outerName {d : String} {cause : DescriptionError}
    (h : outerName d = .error cause) : cause = .missingName d := by
  unfold outerName at h
  split at h
  · cases h
    rfl
  · cases h

namespace Checker

variable {c : Checker} {d d' : String} {v v' : Value}

theorem faultsIn_judgeInstance {F : DescriptionError → Prop} (className argument : String)
    (v : Value) : (judgeInstance className argument v).FaultsIn F := by
  unfold judgeInstance
  split
  · exact faultsIn_mismatch _
  · cases v with
    | object o => exact faultsIn_require _ _
    | _ => exact faultsIn_mismatch _

theorem OfBuiltins.faultsIn_inspect (hc : c.OfBuiltins) {F : DescriptionError → Prop}
    {answer : String → Value → Verdict} (hDepth : nestingDepth d ≤ c.policy.maxDepth)
    (hName : ∀ cause, outerName d = .error cause → F cause)
    (hAsks : ∀ d' v', Asks (argument d) v d' v' → (answer d' v').FaultsIn F) :
    ((c.inspect d v).resolve answer).FaultsIn F := by
  have hOuter : c.grammar.outerName d = outerName d := by
    rw [hc.grammar]
    rfl
  cases hResult : outerName d with
  | error cause =>
    rw [inspect_of_nameless hDepth (hOuter.trans hResult)]
    exact faultsIn_malformed_iff.mpr (hName cause hResult)
  | ok name =>
    cases hTypes : c.catalogue.find? name with
    | none =>
      rw [inspect_of_not_found hDepth (hOuter.trans hResult) hTypes]
      exact faultsIn_judgeInstance name _ v
    | some types =>
      rw [inspect_of_found hDepth (hOuter.trans hResult) hTypes]
      refine faultsIn_resolve_firstSettled none fun i hi => ?_
      obtain ⟨t, ht, rfl⟩ := List.mem_map.mp hi
      obtain ⟨b, rfl⟩ := hc.types hTypes t ht
      rw [hc.grammar]
      exact (b.demands_inspect _ v).faultsIn_resolve hAsks

/-- A description within the limit can only lack a name, itself or one of its parts. -/
theorem OfBuiltins.faultsIn_check (hc : c.OfBuiltins) (hDepth : nestingDepth d ≤ c.policy.maxDepth)
    (v : Value) : (c.check d v).FaultsIn fun cause => ∃ part, cause = .missingName part := by
  induction hn : d.length using Nat.strong_induction_on generalizing d v with
  | _ n ih =>
    rw [hc.check_eq]
    refine hc.faultsIn_inspect hDepth
      (fun cause h => ⟨d, eq_missingName_of_outerName h⟩) fun d' v' hAsks => ?_
    exact ih d'.length (hn ▸ hAsks.length_lt) (Nat.le_trans hAsks.nestingDepth_le hDepth) v' rfl

/-- The checker with another limit on the depth of brackets. -/
def withMaxDepth (c : Checker) (limit : Nat) : Checker :=
  { c with policy := { c.policy with maxDepth := limit } }

theorem OfBuiltins.withMaxDepth (hc : c.OfBuiltins) (limit : Nat) :
    (c.withMaxDepth limit).OfBuiltins := ⟨hc.types, hc.grammar⟩

theorem inspect_withMaxDepth {limit : Nat} (hDepth : nestingDepth d ≤ c.policy.maxDepth)
    (hLimit : nestingDepth d ≤ limit) (v : Value) :
    (c.withMaxDepth limit).inspect d v = c.inspect d v := by
  rw [inspect, inspect, if_neg (Nat.not_lt.mpr hDepth)]
  exact if_neg (Nat.not_lt.mpr hLimit)

theorem OfBuiltins.check_withMaxDepth (hc : c.OfBuiltins)
    (hDepth : nestingDepth d ≤ c.policy.maxDepth) {larger : Nat}
    (hLarger : c.policy.maxDepth ≤ larger) (v : Value) :
    (c.withMaxDepth larger).check d v = c.check d v := by
  induction hn : d.length using Nat.strong_induction_on generalizing d v with
  | _ n ih =>
    rw [hc.check_eq, (hc.withMaxDepth larger).check_eq,
      inspect_withMaxDepth hDepth (Nat.le_trans hDepth hLarger)]
    refine ((hc.eachAsk_inspect d v).imp fun d' v' hAsks => ?_).resolve_congr
    exact ih d'.length (hn ▸ hAsks.length_lt) (Nat.le_trans hAsks.nestingDepth_le hDepth) v' rfl

/-! ### Checks that arise inside a check -/

/-- The check of `v'` against `d'` arises in the check of `v` against `d`, at any depth. -/
inductive Arises (c : Checker) (d : String) (v : Value) : String → Value → Prop where
  | asked {d' : String} {v' : Value} (mem : (d', v') ∈ (c.inspect d v).asked c.check) :
      Arises c d v d' v'
  | deeper {d' d'' : String} {v' v'' : Value} (outer : Arises c d v d' v')
      (mem : (d'', v'') ∈ (c.inspect d' v').asked c.check) : Arises c d v d'' v''

theorem OfBuiltins.asks_of_mem_asked (hc : c.OfBuiltins)
    (h : (d', v') ∈ (c.inspect d v).asked c.check) : Asks (argument d) v d' v' :=
  (hc.eachAsk_inspect d v).of_mem_asked h

theorem OfBuiltins.nestingDepth_le_of_arises (hc : c.OfBuiltins) (h : c.Arises d v d' v') :
    nestingDepth d' ≤ nestingDepth d := by
  induction h with
  | asked mem => exact (hc.asks_of_mem_asked mem).nestingDepth_le
  | deeper _ mem ih => exact Nat.le_trans (hc.asks_of_mem_asked mem).nestingDepth_le ih

theorem OfBuiltins.check_of_tooDeep (hc : c.OfBuiltins) (h : c.policy.maxDepth < nestingDepth d)
    (v : Value) : c.check d v = .malformed (.tooDeep d c.policy.maxDepth) := by
  rw [hc.check_eq, inspect, if_pos h]
  rfl

theorem OfBuiltins.check_ne_tooDeep (hc : c.OfBuiltins)
    (hDepth : nestingDepth d ≤ c.policy.maxDepth) (v : Value) (description : String)
    (limit : Nat) : c.check d v ≠ .malformed (.tooDeep description limit) := by
  intro h
  obtain ⟨part, hPart⟩ := hc.faultsIn_check hDepth v _ h
  cases hPart

/-- A check finds a description too deep just when the description itself is deeper than the limit.
A description within the limit is checked as under any larger limit, and no check that arises inside
finds its description too deep. -/
theorem check_eq_tooDeep_iff (hc : c.OfBuiltins) (d : String) (v : Value) :
    (∀ description limit, c.check d v = .malformed (.tooDeep description limit) ↔
      c.policy.maxDepth < nestingDepth d ∧ description = d ∧ limit = c.policy.maxDepth) ∧
    (nestingDepth d ≤ c.policy.maxDepth →
      (∀ larger, c.policy.maxDepth ≤ larger → (c.withMaxDepth larger).check d v = c.check d v) ∧
      ∀ d' v', c.Arises d v d' v' →
        ∀ description limit, c.check d' v' ≠ .malformed (.tooDeep description limit)) := by
  refine ⟨fun description limit => ?_, fun hDepth => ⟨fun larger hLarger => ?_, ?_⟩⟩
  · constructor
    · intro h
      have hDeep : c.policy.maxDepth < nestingDepth d := by
        by_contra hDepth
        exact hc.check_ne_tooDeep (Nat.not_lt.mp hDepth) v description limit h
      rw [hc.check_of_tooDeep hDeep] at h
      cases h
      exact ⟨hDeep, rfl, rfl⟩
    · rintro ⟨hDeep, rfl, rfl⟩
      exact hc.check_of_tooDeep hDeep v
  · exact hc.check_withMaxDepth hDepth hLarger v
  · intro d' v' hArises
    exact hc.check_ne_tooDeep (Nat.le_trans (hc.nestingDepth_le_of_arises hArises) hDepth) v'

/-- The built-in types, with arrays under a further name, and a limit of one. -/
def withLists : Checker :=
  ({ policy := { maxDepth := 1 } } : Checker).addAs "list" Builtin.array.toType

/-- Lists in a list are too deep for the limit; a list with a stray bracket is not, and neither is
what is asked for inside. -/
theorem check_eq_tooDeep_iff_lists :
    withLists.check "list<list<int>>" .null = .malformed (.tooDeep "list<list<int>>" 1) ∧
    (withLists.withMaxDepth 5).check "list<int>>" (.list [.integer 0]) =
      withLists.check "list<int>>" (.list [.integer 0]) ∧
    withLists.check "int>" (.integer 0) ≠ .malformed (.tooDeep "int>" 1) := by
  have hc : withLists.OfBuiltins := (ofBuiltins _).addAs "list" .array
  have hArises : withLists.Arises "list<int>>" (.list [.integer 0]) "int>" (.integer 0) :=
    .asked List.mem_cons_self
  have hFlat := (check_eq_tooDeep_iff hc "list<int>>" (.list [.integer 0])).2 (by decide)
  refine ⟨?_, hFlat.1 5 (by decide), hFlat.2 "int>" (.integer 0) hArises "int>" 1⟩
  exact ((check_eq_tooDeep_iff hc "list<list<int>>" .null).1 _ _).mpr ⟨by decide, rfl, rfl⟩

end Checker

end Conformance
