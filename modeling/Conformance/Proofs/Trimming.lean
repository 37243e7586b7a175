import Conformance.Proofs.Locality
import Conformance.Proofs.OneArgument

/-! White space at the ends of the parts of a description.  The spaced grammar takes out the same
parts as the standard one and removes the white space around each.  So the parts are no longer than
before, and a check comes to an end; where a description has no white space there is nothing to
remove, and the two grammars validate alike. -/

namespace Conformance

/-! ### Trimming -/

namespace Text

/-- A text without white space. -/
def Solid (s : List Char) : Prop := ∀ c ∈ s, isBlank c = false

/-- A text that neither begins nor ends with white space, and is not empty. -/
structure Fitted (s : List Char) : Prop where
  first : ∃ c rest, s = c :: rest ∧ isBlank c = false
  last : ∃ rest c, s = rest ++ [c] ∧ isBlank c = false

variable {s t : List Char}

theorem solid_of_all (h : s.all (!isBlank ·) = true) : Solid s := fun c hc => by
  simpa using List.all_eq_true.mp h c hc

theorem Solid.of_isInfix (h : Solid t) (hInfix : s <:+: t) : Solid s :=
  fun c hc => h c (hInfix.mem hc)

theorem solid_append : Solid (s ++ t) ↔ Solid s ∧ Solid t := List.forall_mem_append

theorem Solid.fitted (h : Solid s) (hne : s ≠ []) : Fitted s where
  first := by
    cases s with
    | nil => exact absurd rfl hne
    | cons c rest => exact ⟨c, rest, rfl, h c List.mem_cons_self⟩
  last := ⟨s.dropLast, s.getLast hne, (List.dropLast_append_getLast hne).symm,
    h _ (List.getLast_mem hne)⟩

/-- What stands between two texts makes no difference to the ends of the whole. -/
theorem Fitted.append (hs : Fitted s) (ht : Fitted t) (between : List Char) :
    Fitted (s ++ between ++ t) where
  first := by
    obtain ⟨c, rest, rfl, hc⟩ := hs.first
    exact ⟨c, rest ++ between ++ t, by simp, hc⟩
  last := by
    obtain ⟨rest, c, rfl, hc⟩ := ht.last
    exact ⟨s ++ between ++ rest, c, by simp, hc⟩

theorem dropWhile_isBlank_of_first (h : ∃ c rest, s = c :: rest ∧ isBlank c = false) :
    s.dropWhile isBlank = s := by
  obtain ⟨c, rest, rfl, hc⟩ := h
  simp [hc]

/-- White space goes from both ends, and all that is between stays. -/
theorem trimChars_around (h : Fitted s) {before behind : List Char}
    (hBefore : ∀ c ∈ before, isBlank c = true) (hBehind : ∀ c ∈ behind, isBlank c = true) :
    trimChars (before ++ s ++ behind) = s := by
  have hFront : (before ++ s ++ behind).dropWhile isBlank = s ++ behind := by
    rw [List.append_assoc, List.dropWhile_append_of_pos hBefore]
    obtain ⟨c, rest, rfl, hc⟩ := h.first
    exact dropWhile_isBlank_of_first ⟨c, rest ++ behind, rfl, hc⟩
  have hBack : (behind.reverse ++ s.reverse).dropWhile isBlank = s.reverse := by
    rw [List.dropWhile_append_of_pos fun c hc => hBehind c (List.mem_reverse.mp hc)]
    obtain ⟨rest, c, rfl, hc⟩ := h.last
    exact dropWhile_isBlank_of_first ⟨c, rest.reverse, by simp, hc⟩
  rw [trimChars, hFront, List.reverse_append, hBack, List.reverse_reverse]

theorem trimChars_of_blank (h : ∀ c ∈ s, isBlank c = true) : trimChars s = [] := by
  rw [trimChars, List.dropWhile_eq_nil_iff.mpr h]
  rfl

theorem trimChars_isInfix (s : List Char) : trimChars s <:+: s := by
  have hFront := List.dropWhile_suffix (l := s) isBlank
  have hBack := List.dropWhile_suffix (l := (s.dropWhile isBlank).reverse) isBlank
  have hPrefix : trimChars s <+: s.dropWhile isBlank := by
    rw [trimChars, ← List.reverse_suffix, List.reverse_reverse]
    exact hBack
  exact hPrefix.isInfix.trans hFront.isInfix

theorem toList_trim (d : String) : (trim d).toList = trimChars d.toList := String.toList_ofList

theorem length_trim_le (d : String) : (trim d).length ≤ d.length := by
  refine Description.length_le_of_infix ?_
  rw [toList_trim]
  exact trimChars_isInfix d.toList

theorem trim_of_fitted {d : String} (h : Fitted d.toList) : trim d = d := by
  have hTrim : trimChars ([] ++ d.toList ++ []) = d.toList :=
    trimChars_around h (by simp) (by simp)
  apply String.toList_inj.mp
  rw [toList_trim]
  simpa using hTrim

theorem trim_of_solid {d : String} (h : Solid d.toList) : trim d = d := by
  by_cases hne : d.toList = []
  · obtain rfl := String.toList_eq_nil_iff.mp hne
    rfl
  · exact trim_of_fitted (h.fitted hne)

@[simp] theorem trim_empty : trim "" = "" := rfl

end Text

open Text Description

/-! ### Parts -/

namespace Description

variable {d : String}

theorem argument_isInfix (d : String) : (argument d).toList <:+: d.toList := by
  by_cases h : argument d = ""
  · rw [h]
    exact List.nil_infix
  · have hText := toList_eq_of_argument_ne h
    exact ⟨nameChars d.toList ++ ['<'], ['>'], by simpa using hText.symm⟩

theorem solid_of_mem_alternatives (h : Solid d.toList) {a : String} (ha : a ∈ alternatives d) :
    Solid a.toList := by
  obtain ⟨piece, hPiece, rfl⟩ := List.mem_map.mp ha
  have hSolid := h.of_isInfix (infix_of_mem_pieces hPiece)
  have hElement := hSolid.of_isInfix (List.takeWhile_prefix (· ≠ '[')).isInfix
  have hOpen : Solid "array<".toList := solid_of_all (by decide)
  have hClose : Solid ['>'] := solid_of_all (by decide)
  rw [String.toList_ofList, expandShorthand]
  split
  · exact solid_append.mpr ⟨solid_append.mpr ⟨hOpen, hElement⟩, hClose⟩
  · exact hSolid

end Description

namespace Grammar

/-- Trimming makes no part longer. -/
theorem Shrinks.trimmed {g : Grammar} (h : g.Shrinks) : g.trimmed.Shrinks where
  argument d given := by
    have hGiven : g.argument d ≠ "" := fun hEmpty =>
      given ((congrArg trim hEmpty).trans trim_empty)
    exact Nat.lt_of_le_of_lt (length_trim_le (g.argument d)) (h.argument d hGiven)
  key a := Nat.le_trans (length_trim_le (g.keyValue a).1) (h.key a)
  value a := Nat.le_trans (length_trim_le (g.keyValue a).2) (h.value a)

theorem shrinks_spaced : spaced.Shrinks := shrinks_standard.trimmed

end Grammar

/-! ### Descriptions without white space -/

namespace Grammar

variable {d : String} (h : Solid d.toList)

include h

theorem spaced_alternatives_of_solid : spaced.alternatives d = Description.alternatives d := by
  refine (List.map_congr_left fun a ha => ?_).trans (List.map_id _)
  exact trim_of_solid (solid_of_mem_alternatives h ha)

theorem spaced_outerName_of_solid : spaced.outerName d = Description.outerName d := by
  show (Description.outerName d).map trim = Description.outerName d
  cases hName : Description.outerName d with
  | error cause => rfl
  | ok name =>
    have hSolid : Solid name.toList := by
      rw [← nameChars_of_outerName hName]
      exact h.of_isInfix (List.takeWhile_prefix _).isInfix
    exact congrArg Except.ok (trim_of_solid hSolid)

theorem spaced_argument_of_solid : spaced.argument d = Description.argument d :=
  trim_of_solid (h.of_isInfix (argument_isInfix d))

theorem spaced_keyValue_of_solid : spaced.keyValue d = Description.keyValue d := by
  obtain ⟨hKey, hValue⟩ := keyValue_infix d
  exact Prod.ext (trim_of_solid (h.of_isInfix hKey)) (trim_of_solid (h.of_isInfix hValue))

end Grammar

theorem Builtin.inspect_spaced_of_solid (b : Builtin) {argument : String}
    (h : Solid argument.toList) (v : Value) :
    b.inspect .spaced argument v = b.inspect .standard argument v := by
  have hParts := Grammar.spaced_keyValue_of_solid h
  have hKinds := Grammar.spaced_alternatives_of_solid h
  cases b with
  | array =>
    cases v with
    | array entries =>
      simp only [inspect, inspectArray, hParts]
      rfl
    | _ => simp only [inspect, inspectArray]
  | resource =>
    cases v with
    | resource kind id =>
      simp only [inspect, judgeResource, hKinds]
      rfl
    | _ => simp only [inspect, judgeResource]
  | _ => simp only [inspect]

namespace Checker

/-- A checker of the built-in types that allows white space around the parts of descriptions. -/
def spaced (policy : Policy) : Checker := { policy, grammar := .spaced }

variable {policy : Policy} {d : String} {v : Value}

theorem inspect_spaced_of_solid (h : Solid d.toList) (v : Value) :
    (spaced policy).inspect d v = ({ policy } : Checker).inspect d v := by
  have hOuter : (spaced policy).grammar.outerName d = Description.outerName d :=
    Grammar.spaced_outerName_of_solid h
  have hArgument : (spaced policy).grammar.argument d = Description.argument d :=
    Grammar.spaced_argument_of_solid h
  rcases Nat.lt_or_ge policy.maxDepth (nestingDepth d) with hDeep | hDepth
  · exact (inspect_of_deep (c := spaced policy) hDeep v).trans
      (inspect_of_deep (c := { policy }) hDeep v).symm
  · cases hName : Description.outerName d with
    | error cause =>
      rw [inspect_of_nameless (c := spaced policy) hDepth (hOuter.trans hName),
        inspect_of_nameless (c := { policy }) hDepth hName]
    | ok name =>
      cases hTypes : Catalogue.builtins.find? name with
      | none =>
        rw [inspect_of_not_found (c := spaced policy) hDepth (hOuter.trans hName) hTypes, hArgument,
          inspect_of_not_found (c := { policy }) hDepth hName hTypes]
        rfl
      | some types =>
        rw [inspect_of_found (c := spaced policy) hDepth (hOuter.trans hName) hTypes, hArgument,
          inspect_of_found (c := { policy }) hDepth hName hTypes]
        refine congrArg (Inspection.firstSettled none) (List.map_congr_left fun t ht => ?_)
        obtain ⟨b, rfl⟩ := (ofBuiltins policy).types hTypes t ht
        exact b.inspect_spaced_of_solid (h.of_isInfix (argument_isInfix d)) v

theorem check_spaced_of_solid (h : Solid d.toList) (v : Value) :
    (spaced policy).check d v = ({ policy } : Checker).check d v := by
  have hWithin (budget : Nat) :
      (spaced policy).checkWithin budget d v = ({ policy } : Checker).checkWithin budget d v := by
    induction budget generalizing d v with
    | zero => rfl
    | succ budget ih =>
      rw [checkWithin, checkWithin, inspect_spaced_of_solid h]
      refine (((ofBuiltins policy).eachAsk_inspect d v).imp fun d' v' hAsks => ?_).run_congr
      exact ih ((h.of_isInfix (argument_isInfix d)).of_isInfix hAsks.infix_argument) v'
  rw [check, check, hWithin]

/-- A parameter whose description has no white space is validated alike with either grammar. -/
theorem validate_spaced_of_solid (h : Solid d.toList) (name : String) (v : Value) :
    (spaced policy).validate [.required name d] [(name, v)] =
      ({ policy } : Checker).validate [.required name d] [(name, v)] := by
  have hAlternatives : (spaced policy).alternativesOf (.required name d) = alternatives d := by
    show Grammar.spaced.alternatives (trim d) = alternatives d
    rw [trim_of_solid h, Grammar.spaced_alternatives_of_solid h]
  have hOutcomes : (alternatives d).mapM ((spaced policy).alternativeOutcome v) =
      (alternatives d).mapM (({ policy } : Checker).alternativeOutcome v) := by
    refine mapM_congr fun a ha => ?_
    rw [alternativeOutcome, alternativeOutcome,
      check_spaced_of_solid (solid_of_mem_alternatives h ha)]
  refine (validate_single (spaced policy) (.required name d) v).trans ?_
  refine Eq.trans ?_ (validate_single { policy } (.required name d) v).symm
  rw [validateArgument_eq_map, validateArgument_eq_map, hAlternatives, hOutcomes]
  rfl

end Checker

/-! ### Checks come to an end -/

/-- The parts that the spaced grammar takes out are infixes of what the standard one takes out. -/
theorem Description.spaced_parts_isInfix (d : String) :
    let parts := Grammar.spaced.keyValue (Grammar.spaced.argument d)
    parts.1.toList <:+: (argument d).toList ∧ parts.2.toList <:+: (argument d).toList := by
  have hTrim (s : String) : (trim s).toList <:+: s.toList := by
    rw [toList_trim]
    exact trimChars_isInfix s.toList
  obtain ⟨hKey, hValue⟩ := keyValue_infix (trim (argument d))
  exact ⟨((hTrim _).trans hKey).trans (hTrim _), ((hTrim _).trans hValue).trans (hTrim _)⟩

theorem Checker.descends_spaced (policy : Policy) :
    (spaced policy).Descends id String.length where
  asks d v := by
    refine eachAsk_inspect_of_types fun name types hTypes t ht => ?_
    obtain ⟨b, rfl⟩ := (ofBuiltins policy).types hTypes t ht
    refine (b.demands_inspect_parts _ fun _ _ hGiven _ _ => ?_).eachAsk
    have hStandard : argument d ≠ "" := fun hEmpty => hGiven (by
      show trim (argument d) = ""
      rw [hEmpty, trim_empty])
    have hShorter {part : String} (hPart : part.toList <:+: (argument d).toList) :
        part.length < d.length := by
      have hLength := hPart.length_le
      have hWhole := congrArg List.length (toList_eq_of_argument_ne hStandard)
      simp only [List.length_append, List.length_cons, String.length_toList] at hLength hWhole
      omega
    obtain ⟨hKey, hValue⟩ := spaced_parts_isInfix d
    exact ⟨fun _ => ⟨_, rfl, hShorter hKey⟩, _, rfl, hShorter hValue⟩
  affordable d := by
    unfold budget
    exact Nat.lt_of_lt_of_le (Nat.lt_succ_self _) (Nat.le_add_right _ _)

end Conformance
