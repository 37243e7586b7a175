import Conformance.Description.Tree
import Conformance.Proofs.Dispatch
import Conformance.ValueType.Sequence

/-! Only the names in a description matter.  The descriptions that a check can come to are reached
from the given one by taking the key and value types of arguments, again and again; a checker of
built-in types looks up the outermost names of these and no others.  So a type that is registered
under any other name changes nothing.  The names can be read off the tree of the description. -/

namespace Conformance

theorem Grammar.shrinks_standard : Grammar.standard.Shrinks where
  argument _ given := Description.length_argument_lt given
  key a := Description.length_le_of_infix (Description.keyValue_infix a).1
  value a := Description.length_le_of_infix (Description.keyValue_infix a).2

/-- The types of a catalogue are all built in, under whatever names. -/
def Catalogue.AllBuiltin (c : Catalogue) : Prop :=
  ∀ name types, c.find? name = some types → ∀ t ∈ types, ∃ b : Builtin, t = b.toType

theorem Inspection.EachAsk.run_congr {i : Inspection}
    {answer other : String → Value → Option Verdict}
    (h : i.EachAsk fun d v => answer d v = other d v) : i.run answer = i.run other := by
  induction h with
  | settled verdict => rfl
  | ask here _ ih =>
    rw [run, run, here]
    split
    · next verdict _ => exact ih verdict
    · rfl

namespace Checker

variable {c : Checker} {d d' name : String}

theorem eachAsk_inspect_reaches (hc : c.catalogue.AllBuiltin) (h : c.grammar.Reaches d d')
    (v : Value) : (c.inspect d' v).EachAsk fun part _ => c.grammar.Reaches d part := by
  refine eachAsk_inspect_of_types fun outer types hTypes t ht => ?_
  obtain ⟨b, rfl⟩ := hc outer types hTypes t ht
  refine (b.demands_inspect_parts c.grammar fun _ _ given _ _ => ⟨fun _ => ?_, ?_⟩).eachAsk
  · exact .key h given
  · exact .value h given

theorem inspect_addAs_of_ne (h : c.grammar.outerName d ≠ .ok name) (t : ValueType) (v : Value) :
    (c.addAs name t).inspect d v = c.inspect d v := by
  cases hOuter : c.grammar.outerName d with
  | error cause => simp only [inspect, addAs, hOuter]
  | ok outer =>
    have hName : outer ≠ name := fun hEq => h (hEq ▸ hOuter)
    simp only [inspect, addAs, hOuter, inspectNamed, Catalogue.find?_addAs_of_ne hName]

theorem checkWithin_addAs_of_unreached (hc : c.catalogue.AllBuiltin)
    (hName : ∀ part, c.grammar.Reaches d part → c.grammar.outerName part ≠ .ok name)
    (t : ValueType) (budget : Nat) (h : c.grammar.Reaches d d') (v : Value) :
    (c.addAs name t).checkWithin budget d' v = c.checkWithin budget d' v := by
  -- By induction on the budget and not on the description: the new type may be any, so nothing is
  -- known of the checks that the changed checker makes elsewhere.
  induction budget generalizing d' v with
  | zero => rfl
  | succ budget ih =>
    rw [checkWithin, checkWithin, inspect_addAs_of_ne (hName d' h) t v]
    exact ((eachAsk_inspect_reaches hc h v).imp fun part w hPart => ih hPart w).run_congr

/-- A type registered under a name that is not the outermost name of any description reached from
the given one does not change the verdict on any value. -/
theorem check_addAs_of_unreached (hc : c.catalogue.AllBuiltin)
    (hName : ∀ part, c.grammar.Reaches d part → c.grammar.outerName part ≠ .ok name)
    (t : ValueType) (v : Value) : (c.addAs name t).check d v = c.check d v := by
  rw [check, check, checkWithin_addAs_of_unreached hc hName t (budget d) .self v]

/-- A type registered under a name that is not in the tree of a description does not change the
verdict on any value. -/
theorem check_addAs_of_not_mem_tree (hc : c.catalogue.AllBuiltin) (hg : c.grammar.Shrinks)
    (hName : .ok name ∉ (c.grammar.tree d d.length).names) (t : ValueType) (v : Value) :
    (c.addAs name t).check d v = c.check d v := by
  have hUnreached : ∀ part, c.grammar.Reaches d part → c.grammar.outerName part ≠ .ok name :=
    fun part hPart hOuter =>
      hName ((Grammar.mem_names_tree_iff hg (Nat.le_refl _)).mpr ⟨part, hPart, hOuter⟩)
  rw [check, check, checkWithin_addAs_of_unreached hc hUnreached t (budget d) .self v]

/-- All that is reached from an array of arrays with integer keys. -/
def tableParts : List String := ["array<int,array<lists>>", "int", "array<lists>", "", "lists"]

theorem mem_tableParts {part : String}
    (h : Grammar.standard.Reaches "array<int,array<lists>>" part) : part ∈ tableParts := by
  have hClosed : ∀ d ∈ tableParts, Description.argument d ≠ "" →
      (Description.keyValue (Description.argument d)).1 ∈ tableParts ∧
        (Description.keyValue (Description.argument d)).2 ∈ tableParts := by decide
  induction h with
  | self => exact List.mem_cons_self
  | key _ given ih => exact (hClosed _ ih given).1
  | value _ given ih => exact (hClosed _ ih given).2

/-- Lists may become a type of their own where only a class of another name is asked for. -/
theorem check_addAs_of_unreached_table :
    (({} : Checker).addAs "list" .list).check "array<int,array<lists>>"
        (.list [.list [.null]]) =
      .mismatch (.inValue 0 (.int 0) (.inValue 0 (.int 0) (.notObject "lists" "null"))) := by
  have hName : ∀ part ∈ tableParts, Description.outerName part ≠ .ok "list" := by decide
  rw [check_addAs_of_unreached (fun _ _ h => (ofBuiltins {}).types h)
    (fun part h => hName part (mem_tableParts h))]
  decide +kernel

end Checker

end Conformance
