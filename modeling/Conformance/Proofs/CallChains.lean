import Conformance.Proofs.DepthLimit
import Conformance.Proofs.Registration

/-! Chains of checks, each made in the course of the one before it.  A budget suffices for a check
just when it is not below the length of any chain that starts there.  Built-in types make checks of
ever shorter parts of a description on keys and values of arrays, so a chain is at most one longer
than the description that it starts with, and the check comes to an end whatever that is. -/

namespace Conformance

open Description

/-! ### Registrations of built-in types -/

/-- When all that is registered are built-in types, under whatever names and however often, a
checker finds no others. -/
theorem Catalogue.Records.ofBuiltins {c : Catalogue} {log : List (String × ValueType)}
    (h : c.Records log) (hLog : ∀ entry ∈ log, ∃ b : Builtin, entry.2 = b.toType)
    (policy : Policy) : ({ catalogue := c, policy } : Checker).OfBuiltins where
  types := by
    intro name types hFound t ht
    rw [h.found] at hFound
    split at hFound
    · cases hFound
      obtain ⟨entry, hEntry, rfl⟩ := List.mem_map.mp ht
      exact hLog entry (List.mem_of_mem_filter hEntry)
    · cases hFound
  grammar := rfl

/-! ### Answers that an inspection needs -/

/-- When all answers that are given are those of `total`, an inspection comes to a verdict just when
whatever it asks for under `total` is answered. -/
theorem Inspection.run_isSome_iff {answer : String → Value → Option Verdict}
    {total : String → Value → Verdict}
    (h : ∀ d v verdict, answer d v = some verdict → total d v = verdict) (i : Inspection) :
    (i.run answer).isSome ↔ ∀ call ∈ i.asked total, (answer call.1 call.2).isSome := by
  induction i with
  | settled verdict => exact iff_of_true rfl fun _ hCall => absurd hCall List.not_mem_nil
  | ask d v next ih =>
    rw [run, asked, List.forall_mem_cons]
    cases hAnswer : answer d v with
    | none => simp
    | some verdict =>
      obtain rfl := h d v verdict hAnswer
      simpa using ih (total d v)

open Inspection

/-! ### Parts -/

/-- A description and a value are parts of others: the description is a shorter stretch of the
other, and the value is a key or the value of an entry of an array. -/
structure IsPart (d : String) (v : Value) (d' : String) (v' : Value) : Prop where
  stretch : d'.toList <:+: d.toList
  shorter : d'.length < d.length
  member : ∃ entries, v = .array entries ∧ ∃ e ∈ entries, v' = .ofKey e.1 ∨ v' = e.2

theorem Asks.isPart {d d' : String} {v v' : Value} (h : Asks (argument d) v d' v') :
    IsPart d v d' v' where
  stretch := h.isInfix
  shorter := h.length_lt
  member := by
    cases h with
    | key array mem => exact ⟨_, array, _, mem, .inl rfl⟩
    | value array mem => exact ⟨_, array, _, mem, .inr rfl⟩

/-! ### Chains -/

namespace Checker

variable {c : Checker} {d : String} {v : Value} {calls : List (String × Value)}

/-- One check, given by its description and its value, makes another. -/
def Calls (c : Checker) (outer inner : String × Value) : Prop :=
  inner ∈ (c.inspect outer.1 outer.2).asked c.check

theorem OfBuiltins.eachAsk_isPart (hc : c.OfBuiltins) (d : String) (v : Value) :
    (c.inspect d v).EachAsk (IsPart d v) :=
  (hc.eachAsk_inspect d v).imp fun _ _ hAsks => hAsks.isPart

/-- Each check of a chain shortens the description of the one before it. -/
theorem OfBuiltins.length_le_of_chain (hc : c.OfBuiltins)
    (h : List.IsChain c.Calls ((d, v) :: calls)) : calls.length ≤ d.length := by
  induction calls generalizing d v with
  | nil => exact Nat.zero_le _
  | cons call rest ih =>
    obtain ⟨hCall, hRest⟩ := List.isChain_cons_cons.mp h
    have hShorter := ((hc.eachAsk_isPart d v).of_mem_asked hCall).shorter
    exact Nat.lt_of_le_of_lt (ih hRest) hShorter

/-- A budget suffices just when no chain of checks is longer. -/
theorem OfBuiltins.checkWithin_isSome_iff (hc : c.OfBuiltins) (n : Nat) (d : String) (v : Value) :
    (c.checkWithin n d v).isSome ↔
      ∀ calls, List.IsChain c.Calls ((d, v) :: calls) → calls.length < n := by
  induction n generalizing d v with
  | zero => exact iff_of_false Bool.false_ne_true fun h => Nat.not_lt_zero _ (h [] (.singleton _))
  | succ n ih =>
    rw [checkWithin, run_isSome_iff fun _ _ _ => hc.check_eq_of_checkWithin]
    constructor
    · intro hAnswers calls hChain
      cases calls with
      | nil => exact Nat.succ_pos n
      | cons call rest =>
        obtain ⟨hCall, hRest⟩ := List.isChain_cons_cons.mp hChain
        exact Nat.succ_lt_succ ((ih call.1 call.2).mp (hAnswers call hCall) rest hRest)
    · rintro hShort ⟨d', v'⟩ hCall
      refine (ih d' v').mpr fun rest hRest => ?_
      have hChain : List.IsChain c.Calls ((d, v) :: (d', v') :: rest) := .cons_cons hCall hRest
      exact Nat.lt_of_succ_lt_succ (hShort _ hChain)

/-- Checks by built-in types come to an end.  Whatever the answers, a check asks only for checks of
shorter stretches of its description, on keys and values of its array; at most as many checks stand
inside it as its description has characters; and of the budgets, which suffice just when no chain of
checks is longer, all above the number of characters give the verdict of the check. -/
theorem builtin_checks_end (hc : c.OfBuiltins) (d : String) (v : Value) :
    (c.inspect d v).EachAsk (IsPart d v) ∧
    (∀ calls, List.IsChain c.Calls ((d, v) :: calls) → calls.length ≤ d.length) ∧
    (∀ n, (c.checkWithin n d v).isSome ↔
      ∀ calls, List.IsChain c.Calls ((d, v) :: calls) → calls.length < n) ∧
    ∀ n, d.length < n → c.checkWithin n d v = some (c.check d v) := by
  exact ⟨hc.eachAsk_isPart d v, fun calls hChain => hc.length_le_of_chain hChain,
    fun n => hc.checkWithin_isSome_iff n d v, fun n hBudget => hc.checkWithin_eq hBudget v⟩

/-- Boxes are arrays, said twice over, or integers. -/
def boxLog : List (String × ValueType) :=
  [.array, .array, .integer].map fun b => ("box", Builtin.toType b)

/-- The checker that knows boxes and no other types. -/
def boxes : Checker where
  catalogue := boxLog.foldl (fun c entry => c.addAs entry.1 entry.2) .empty

/-- In a box of boxes, with a bracket too many, three checks stand inside one another, so two do not
suffice. -/
theorem builtin_checks_end_boxes :
    boxes.OfBuiltins ∧
    boxes.checkWithin 2 "box<box<int>>>" (.list [.list [.null]]) = none ∧
    boxes.checkWithin 15 "box<box<int>>>" (.list [.list [.null]]) =
      some (boxes.check "box<box<int>>>" (.list [.list [.null]])) := by
  have hLog : ∀ entry ∈ boxLog, ∃ b : Builtin, entry.2 = b.toType := by
    intro entry hEntry
    obtain ⟨b, -, rfl⟩ := List.mem_map.mp hEntry
    exact ⟨b, rfl⟩
  have hc : boxes.OfBuiltins := (Catalogue.records_empty.foldl_addAs boxLog).ofBuiltins hLog {}
  have hChain : List.IsChain boxes.Calls [("box<box<int>>>", .list [.list [.null]]),
      ("box<int>>", .list [.null]), ("int>", .null)] :=
    .cons_cons List.mem_cons_self (.cons_cons List.mem_cons_self (.singleton _))
  obtain ⟨-, -, hBudgets, hAbove⟩ := builtin_checks_end hc "box<box<int>>>" (.list [.list [.null]])
  refine ⟨hc, ?_, hAbove 15 (by decide)⟩
  by_contra hSome
  exact Nat.lt_irrefl 2 ((hBudgets 2).mp (Option.isSome_iff_ne_none.mpr hSome) _ hChain)

end Checker

end Conformance
