import Conformance.Proofs.Outcome
import Conformance.Proofs.Pieces

/-! Unions of any texts.  While no bracket is left open in front of a `|`, the text there is cut, so
an argument conforms to such a union when it conforms to one of its two sides. -/

namespace Conformance

open Description

namespace Checker

variable {c : Checker} {p : Parameter} {v : Value}

theorem alternativesOf_bar (hc : c.grammar = .standard) (name : String) (optional : Bool)
    {a : String} (h : Closing a.toList) (b : String) :
    c.alternativesOf ⟨name, a ++ "|" ++ b, optional⟩ =
      c.alternativesOf ⟨name, a, optional⟩ ++ c.alternativesOf ⟨name, b, optional⟩ := by
  simp only [alternativesOf, hc]
  exact alternatives_append_bar h b

/-- When every opening bracket on the left of a `|` is followed there by a closing one, the
alternatives of both sides make those of the whole.  An argument that can be validated against both
sides can be validated against the whole, and passes when it passes one of them. -/
theorem validate_bar {a : String} (h : Closing a.toList) (b : String) :
    alternatives (a ++ "|" ++ b) = alternatives a ++ alternatives b ∧
    ∀ c : Checker, c.grammar = .standard → ∀ (name : String) (optional : Bool) (v : Value)
      (forLeft forRight : List Diagnostic),
      c.validate [⟨name, a, optional⟩] [(name, v)] = .ok forLeft →
      c.validate [⟨name, b, optional⟩] [(name, v)] = .ok forRight →
      ∃ forWhole, c.validate [⟨name, a ++ "|" ++ b, optional⟩] [(name, v)] = .ok forWhole ∧
        (forWhole = [] ↔ forLeft = [] ∨ forRight = []) := by
  refine ⟨alternatives_append_bar h b, ?_⟩
  intro c hc name optional v forLeft forRight hLeft hRight
  have hAlternatives := alternativesOf_bar hc name optional h b
  obtain ⟨hLeftUnderstood, rfl⟩ := (validate_eq_ok_iff (p := ⟨name, a, optional⟩)).mp hLeft
  obtain ⟨hRightUnderstood, rfl⟩ := (validate_eq_ok_iff (p := ⟨name, b, optional⟩)).mp hRight
  have hUnderstood : ∀ d ∈ c.alternativesOf ⟨name, a ++ "|" ++ b, optional⟩,
      (c.check d v).Understood := by
    rw [hAlternatives]
    exact List.forall_mem_append.mpr ⟨hLeftUnderstood, hRightUnderstood⟩
  refine ⟨_, validate_eq (p := ⟨name, a ++ "|" ++ b, optional⟩) hUnderstood, ?_⟩
  simp only [Option.toList_eq_nil_iff]
  rw [conclude_outcomes_eq_none_iff hUnderstood, conclude_outcomes_eq_none_iff hLeftUnderstood,
    conclude_outcomes_eq_none_iff hRightUnderstood, hAlternatives]
  simp only [List.mem_append, or_and_right, exists_or]

/-- Empty and stray brackets and an empty alternative on the left, a `|` inside brackets on the
right. -/
theorem validate_bar_stray :
    alternatives "int<>||array<a|b>>|string<x|>" =
      ["int<>", "array<a|b>", ">"] ++ ["string<x|>"] ∧
    ({} : Checker).validate [⟨"p", "int<>||array<a|b>>|string<x|>", false⟩] [("p", .string "s")] =
      .ok [] := by
  have hClosing : Closing "int<>||array<a|b>>".toList := closing_of_end "int<>||array<a|b>".toList
  obtain ⟨hAlternatives, hValidate⟩ := validate_bar hClosing "string<x|>"
  obtain ⟨forWhole, hWhole, hNil⟩ := hValidate {} rfl "p" false (.string "s")
    [.noAlternative "p" "int<>||array<a|b>>"] [] (by decide +kernel) (by decide +kernel)
  constructor
  · exact hAlternatives.trans (by decide +kernel)
  · rw [hNil.mpr (.inr rfl)] at hWhole
    exact hWhole

end Checker

end Conformance
