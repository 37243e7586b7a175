import Conformance.Proofs.Dispatch
import Conformance.Proofs.OneArgument

/-! Unions of types with at most one pair of brackets each.  The text of such a union is cut into
just the types that it was written from, so the validation of an argument says whether the value
conforms to one of them. -/

namespace Conformance

open Description

/-! ### The shorthand -/

namespace PlainName

variable (name : PlainName)

theorem toList_shorthand : (name.text ++ "[]").toList = name.text.toList ++ ['[', ']'] := by
  simp

theorem inSpanName_shorthand :
    ∀ c ∈ (name.text ++ "[]").toList, Description.inSpanName c = true := by
  rw [name.toList_shorthand]
  exact List.forall_mem_append.mpr ⟨name.inSpanName, inSpanName_mark⟩

theorem alternatives_shorthand :
    alternatives (name.text ++ "[]") = [(TypeTree.generic .array (.bare name)).print] := by
  have hPieces : pieces (name.text ++ "[]").toList = [name.text.toList ++ ['[', ']']] := by
    rw [pieces_of_name name.inSpanName_shorthand, addPiece, if_neg (by simp), toList_shorthand]
  have hExpanded := expandShorthand_append (name.not_mem (by decide)) name.toList_ne_nil
  rw [alternatives, hPieces, List.map_singleton, hExpanded]
  refine congrArg (fun alternative => [alternative]) (String.toList_inj.mp ?_)
  simp [TypeTree.print, HeadName.array]

end PlainName

/-! ### Unions -/

/-- A type with at most one pair of brackets, as it is written in a union. -/
inductive FlatType where
  | bare (name : PlainName)
  | list (name : PlainName)
  | generic (name : HeadName) (value : PlainName)
  | keyed (name : HeadName) (key value : PlainName)
  | resource (kind : PlainName) (more : List PlainName)

namespace FlatType

/-- The type that is written. -/
def tree : FlatType → TypeTree
  | bare name => .bare name
  | list name => .generic .array (.bare name)
  | generic name value => .generic name (.bare value)
  | keyed name key value => .keyed name (.bare key) (.bare value)
  | resource kind more => .resource kind more

/-- How the type is written. -/
def text : FlatType → String
  | list name => name.text ++ "[]"
  | t => t.tree.print

theorem height_tree (t : FlatType) : t.tree.height ≤ 1 := by
  cases t <;> simp [tree, TypeTree.height]

theorem alternatives_text (t : FlatType) : alternatives t.text = [t.tree.print] := by
  cases t with
  | list name => exact name.alternatives_shorthand
  | bare name => exact TypeTree.alternatives_print (height_tree (.bare name))
  | generic name value => exact TypeTree.alternatives_print (height_tree (.generic name value))
  | keyed name key value => exact TypeTree.alternatives_print (height_tree (.keyed name key value))
  | resource kind more => exact TypeTree.alternatives_print (height_tree (.resource kind more))

theorem closing_text (t : FlatType) : Closing t.text.toList := by
  cases t with
  | list name =>
    refine closing_of_not_mem fun hMem => ?_
    exact absurd (name.inSpanName_shorthand '<' hMem) (by decide)
  | bare name => exact TypeTree.closing_print _
  | generic name value => exact TypeTree.closing_print _
  | keyed name key value => exact TypeTree.closing_print _
  | resource kind more => exact TypeTree.closing_print _

/-- The description of a union of types. -/
def union (ts : List FlatType) : String := "|".intercalate (ts.map text)

/-- A union has the types that it was written from as its alternatives. -/
theorem alternatives_union (ts : List FlatType) :
    alternatives (union ts) = ts.map fun t => t.tree.print := by
  have hClosing : ∀ s ∈ ts.map text, Closing s.toList := by
    intro s hs
    obtain ⟨t, -, rfl⟩ := List.mem_map.mp hs
    exact t.closing_text
  rw [union, alternatives_intercalate hClosing, List.flatMap_map]
  simp only [alternatives_text, ← List.map_eq_flatMap]

end FlatType

/-! ### Validation -/

namespace Checker

open FlatType (union)

variable {policy : Policy}

theorem alternativesOf_union (policy : Policy) (name : String) (ts : List FlatType) :
    ({ policy } : Checker).alternativesOf (.required name (union ts)) =
      ts.map fun t => t.tree.print :=
  FlatType.alternatives_union ts

theorem decides_flat (h : 1 ≤ policy.maxDepth) (t : FlatType) (v : Value) :
    (({ policy } : Checker).check t.tree.print v).Decides (t.tree.Admits v) :=
  decides_print t.tree (Nat.le_trans t.height_tree h) v

theorem understood_union (h : 1 ≤ policy.maxDepth) (name : String) (ts : List FlatType)
    (v : Value) : ∀ a ∈ ({ policy } : Checker).alternativesOf (.required name (union ts)),
      (({ policy } : Checker).check a v).Understood := by
  intro a ha
  rw [alternativesOf_union] at ha
  obtain ⟨t, -, rfl⟩ := List.mem_map.mp ha
  exact (decides_flat h t v).ne_malformed

theorem accepted_union_iff (h : 1 ≤ policy.maxDepth) (name : String) (ts : List FlatType)
    (v : Value) :
    (∃ a ∈ ({ policy } : Checker).alternativesOf (.required name (union ts)),
      ({ policy } : Checker).check a v = .accepted) ↔ ∃ t ∈ ts, t.tree.Admits v := by
  simp only [alternativesOf_union, List.mem_map, exists_exists_and_eq_and]
  exact exists_congr fun t => and_congr_right fun _ => (decides_flat h t v).accepted_iff

/-- An argument for a parameter with a union of types is reported on just when the value conforms to
none of them: with its own reason when there is a single type, with one line for all when there are
several. -/
theorem validate_union (h : 1 ≤ policy.maxDepth) (name : String) (first : FlatType)
    (rest : List FlatType) (v : Value) :
    ∃ lines,
      (({ policy } : Checker).validate [.required name (union (first :: rest))]
        [(name, v)]).map (List.map Diagnostic.message) = .ok lines ∧
      (lines = [] ↔ ∃ t ∈ first :: rest, t.tree.Admits v) ∧
      (lines ≠ [] → rest = [] →
        ∃ cause, ({ policy } : Checker).check first.tree.print v = .mismatch cause ∧
          lines =
            [s!"Argument ${name} does not match type '{first.tree.print}': {cause.message}"]) ∧
      (lines ≠ [] → rest ≠ [] →
        lines = [s!"Parameter ${name}: did not match type declaration \"{union (first :: rest)}\""])
    := by
  have hUnderstood := understood_union h name (first :: rest) v
  have hAlternatives := alternativesOf_union policy name (first :: rest)
  have hNone := (conclude_outcomes_eq_none_iff hUnderstood).trans
    (accepted_union_iff h name (first :: rest) v)
  have hMismatches (hNot : ¬∃ t ∈ first :: rest, t.tree.Admits v) : ∀ t ∈ first :: rest,
      ∃ cause, ({ policy } : Checker).check t.tree.print v = .mismatch cause :=
    fun t ht => (decides_flat h t v).exists_mismatch fun hAdmits => hNot ⟨t, ht, hAdmits⟩
  have hNil := (List.map_eq_nil_iff (f := Diagnostic.message)).trans
    (Option.toList_eq_nil_iff.trans hNone)
  refine ⟨_, congrArg (Except.map (List.map Diagnostic.message)) (validate_eq hUnderstood), hNil,
    fun hSome hSingle => ?_, fun hSome hSeveral => ?_⟩
  · subst hSingle
    obtain ⟨cause, hCause⟩ := hMismatches (mt hNil.mpr hSome) first List.mem_cons_self
    refine ⟨cause, hCause, ?_⟩
    rw [hAlternatives, outcomes, List.map_singleton, List.map_singleton, hCause]
    rfl
  · rw [conclude_of_mismatches]
    · rfl
    · rw [hAlternatives]
      exact List.forall_mem_map.mpr (hMismatches (mt hNil.mpr hSome))
    · rw [hAlternatives, List.length_map, List.length_cons]
      exact fun hLength => hSeveral (List.length_eq_zero_iff.mp (Nat.succ.inj hLength))

/-- Null is neither a list of texts nor an integer. -/
theorem validate_union_null :
    (({} : Checker).validate
        [.required "p" (union [.list ⟨"string", by decide, by decide⟩,
          .bare ⟨"int", by decide, by decide⟩])] [("p", .null)]).map (List.map Diagnostic.message) =
      .ok ["Parameter $p: did not match type declaration \"string[]|int\""] := by
  obtain ⟨lines, hOk, hNil, -, hSeveral⟩ := validate_union
    (show 1 ≤ ({} : Policy).maxDepth by decide) "p" (.list ⟨"string", by decide, by decide⟩)
    [.bare ⟨"int", by decide, by decide⟩] .null
  have hSome : lines ≠ [] := fun hEmpty => by
    obtain ⟨t, ht, hAdmits⟩ := hNil.mp hEmpty
    rcases List.mem_cons.mp ht with rfl | ht
    · obtain ⟨entries, hArray, -⟩ := hAdmits
      cases hArray
    · obtain rfl := List.mem_singleton.mp ht
      obtain ⟨i, hInteger⟩ := hAdmits
      cases hInteger
  rw [hOk, hSeveral hSome (List.cons_ne_nil _ _)]
  decide

end Checker

end Conformance
