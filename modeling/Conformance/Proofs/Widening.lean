import Conformance.Proofs.DepthLimit
import Conformance.Proofs.Precedence

/-! A further type under a name widens what is accepted.  A value that was accepted is not found to
mismatch afterwards.  It may happen that its description is found malformed, when a type that turned
the value down at once now looks further and meets a part without a name; the description of a type
has no such part, so what it accepted stays accepted. -/

namespace Conformance

/-! ### Descriptions of types -/

namespace Description

/-- A name: not empty, and without brackets and commas. -/
structure IsName (s : List Char) : Prop where
  nonempty : s ≠ []
  unbracketed : Unbracketed s
  comma : ',' ∉ s

/-- The description of a type: a name, by itself or with the type of the values, or those of the
keys and the values, between brackets. -/
inductive Formed : List Char → Prop where
  | bare {name : List Char} (hName : IsName name) : Formed name
  | generic {name value : List Char} (hName : IsName name) (hValue : Formed value) :
      Formed (name ++ '<' :: (value ++ ['>']))
  | keyed {name key value : List Char} (hName : IsName name) (hKey : Formed key)
      (hValue : Formed value) : Formed (name ++ '<' :: (key ++ ',' :: value ++ ['>']))

theorem IsName.open_not_mem {s : List Char} (h : IsName s) : '<' ∉ s :=
  fun hMem => (h.unbracketed '<' hMem).1 rfl

namespace Formed

variable {s : List Char} {d d' : String} {v v' : Value}

theorem levelAfter (h : Formed s) (depth : Nat) : levelAfter depth s = depth := by
  induction h generalizing depth with
  | bare hName => exact hName.unbracketed.levelAfter depth
  | generic hName _ ih => simp [hName.unbracketed.levelAfter, ih]
  | keyed hName _ _ ihKey ihValue => simp [hName.unbracketed.levelAfter, ihKey, ihValue]

theorem cutAtComma (h : Formed s) (depth : Nat) : cutAtComma depth s = none := by
  induction h generalizing depth with
  | bare hName => exact cutAtComma_of_not_mem hName.comma depth
  | generic hName _ ih =>
    simp [cutAtComma_append, Description.cutAtComma, cutAtComma_of_not_mem hName.comma, ih]
  | keyed hName hKey _ ihKey ihValue =>
    simp [cutAtComma_append, Description.cutAtComma, cutAtComma_of_not_mem hName.comma, ihKey,
      ihValue, hName.unbracketed.levelAfter, hKey.levelAfter]

theorem exists_outerName (h : Formed d.toList) : ∃ name, outerName d = .ok name := by
  have hChars : nameChars d.toList ≠ [] := by
    generalize d.toList = s at h
    cases h with
    | bare hName => rw [nameChars_of_not_mem hName.open_not_mem]; exact hName.nonempty
    | generic hName _ => rw [nameChars_append hName.open_not_mem]; exact hName.nonempty
    | keyed hName _ _ => rw [nameChars_append hName.open_not_mem]; exact hName.nonempty
  exact ⟨_, outerName_of_nameChars rfl hChars⟩

theorem keyValue (h : Formed d.toList) (given : argument d ≠ "") :
    ((keyValue (argument d)).1 ≠ "" → Formed (keyValue (argument d)).1.toList) ∧
      Formed (keyValue (argument d)).2.toList := by
  generalize hs : d.toList = s at h
  cases h with
  | bare hName =>
    refine absurd ?_ given
    rw [argument, hs, argumentChars_of_open_not_mem hName.open_not_mem]
  | generic hName hValue =>
    rw [argument, hs, argumentChars_append hName.open_not_mem,
      keyValue_of_no_cut (by rw [String.toList_ofList]; exact hValue.cutAtComma 0)]
    exact ⟨fun hTyped => absurd rfl hTyped, by rwa [String.toList_ofList]⟩
  | keyed hName hKey hValue =>
    rw [argument, hs, argumentChars_append hName.open_not_mem,
      keyValue_of_cut (by
        rw [String.toList_ofList]
        exact cutAtComma_key (hKey.cutAtComma 0) (hKey.levelAfter 0) _)]
    exact ⟨fun _ => by rwa [String.toList_ofList], by rwa [String.toList_ofList]⟩

theorem of_asks (h : Formed d.toList) (hAsks : Asks (argument d) v d' v') : Formed d'.toList := by
  cases hAsks with
  | key _ _ given typed => exact (h.keyValue given).1 typed
  | value _ _ given => exact (h.keyValue given).2

end Formed

end Description

open Description

theorem PlainName.isName (name : PlainName) : IsName name.text.toList where
  nonempty := name.toList_ne_nil
  unbracketed := name.unbracketed
  comma := name.not_mem (by decide)

/-- The description of a type within the limit is never found malformed. -/
theorem Checker.OfBuiltins.understood_of_formed {c : Checker} (hc : c.OfBuiltins) {d : String}
    (hFormed : Formed d.toList) (hDepth : nestingDepth d ≤ c.policy.maxDepth) (v : Value) :
    (c.check d v).Understood := by
  induction hn : d.length using Nat.strong_induction_on generalizing d v with
  | _ n ih =>
    rw [hc.check_eq]
    refine hc.faultsIn_inspect hDepth (fun cause hFault => ?_) fun d' v' hAsks => ?_
    · obtain ⟨name, hName⟩ := hFormed.exists_outerName
      rw [hName] at hFault
      cases hFault
    · exact ih d'.length (hn ▸ hAsks.length_lt) (hFormed.of_asks hAsks)
        (Nat.le_trans hAsks.nestingDepth_le hDepth) v' rfl

/-! ### Verdicts before and after -/

/-- What the one verdict accepts the other does not find to mismatch. -/
def Verdict.Widens (before after : Verdict) : Prop := before = .accepted → after.cause? = none

theorem Verdict.Widens.refl (verdict : Verdict) : verdict.Widens verdict := by
  rintro rfl
  rfl

open Verdict

namespace Inspection

variable {before after : String → Value → Verdict}

theorem widens_require {d : String} {v : Value} {next : Inspection}
    (h : (before d v).Widens (after d v))
    (hNext : (next.resolve before).Widens (next.resolve after)) (wider : Mismatch → Mismatch) :
    ((require d v wider next).resolve before).Widens ((require d v wider next).resolve after) := by
  intro hAccepted
  rw [require, resolve] at hAccepted ⊢
  have hFirst : before d v = .accepted := by
    rcases hVerdict : before d v with rejection | ⟨⟩
    · rw [hVerdict] at hAccepted
      cases rejection <;> cases hAccepted
    · rfl
  rw [hFirst] at hAccepted
  have hAfter := h hFirst
  rcases hVerdict : after d v with (cause | cause) | ⟨⟩
  · rw [hVerdict] at hAfter
    cases hAfter
  · rfl
  · exact hNext hAccepted

/-- What is demanded may be met more widely. -/
theorem Demands.widens {p : String → Value → Prop} {i : Inspection} (h : i.Demands p)
    (hWidens : ∀ d v, p d v → (before d v).Widens (after d v)) :
    (i.resolve before).Widens (i.resolve after) := by
  induction h with
  | settled _ => exact .refl _
  | require wider here _ ih => exact widens_require (hWidens _ _ here) ih wider

theorem resolve_firstSettled (answer : String → Value → Verdict) (is : List Inspection) :
    (firstSettled none is).resolve answer =
      (prevailing (is.map fun i => i.resolve answer)).getD accepted := by
  have hAll : is.map (fun i => i.run fun d v => some (answer d v)) =
      (is.map fun i => i.resolve answer).map some := by
    simp [run_some]
  have hRun := run_firstSettled hAll none
  rw [run_some] at hRun
  exact Option.some.inj hRun

/-- Further inspections at the end may accept what the first ones do not, never turn down what one
of them accepts. -/
theorem widens_firstSettled_append {is : List Inspection} (hAny : is ≠ [])
    (h : ∀ i ∈ is, (i.resolve before).Widens (i.resolve after)) (more : List Inspection) :
    ((firstSettled none is).resolve before).Widens
      ((firstSettled none (is ++ more)).resolve after) := by
  intro hAccepted
  -- The verdict before is that of one of the inspections; afterwards this one is no mismatch, and
  -- so no mismatch prevails.
  have hFirst : (is.map fun i => i.resolve before) ≠ [] := by simpa using hAny
  have hSecond : ((is ++ more).map fun i => i.resolve after) ≠ [] := by simp [hAny]
  obtain ⟨verdict, hVerdict⟩ := exists_prevailing hFirst
  obtain ⟨later, hLater⟩ := exists_prevailing hSecond
  rw [resolve_firstSettled, hVerdict] at hAccepted
  rw [resolve_firstSettled, hLater]
  obtain ⟨i, hi, hBefore⟩ := List.mem_map.mp (mem_of_prevailing hVerdict)
  have hMem : i.resolve after ∈ (is ++ more).map fun i => i.resolve after :=
    List.mem_map_of_mem (List.mem_append_left more hi)
  exact cause?_of_prevailing hLater hMem (h i hi (hBefore.trans hAccepted))

end Inspection

open Inspection

/-! ### A further type under a registered name -/

namespace Catalogue

variable {c : Catalogue} {name other : String}

theorem Records.find?_addAs_of_none {log : List (String × ValueType)} (h : c.Records log)
    (hName : name ∈ c.names) (hOther : c.find? other = none) (t : ValueType) :
    (c.addAs name t).find? other = none := by
  have hNe : other ≠ name := by
    rintro rfl
    rw [h.mem_names_iff, hOther] at hName
    cases hName
  rw [find?_addAs_of_ne hNe, hOther]

theorem exists_find?_addAs {types : List ValueType} (hOther : c.find? other = some types)
    (name : String) (t : ValueType) :
    ∃ more, (c.addAs name t).find? other = some (types ++ more) := by
  by_cases hName : other = name
  · subst hName
    exact ⟨[t], by rw [find?_addAs_self, hOther]; rfl⟩
  · exact ⟨[], by rw [find?_addAs_of_ne hName, hOther, List.append_nil]⟩

end Catalogue

namespace Checker

variable {c : Checker} {d name : String} {v : Value} {log : List (String × ValueType)}

theorem OfBuiltins.widens_inspect_addAs (hc : c.OfBuiltins) (hLog : c.catalogue.Records log)
    (hName : name ∈ c.catalogue.names) {before after : String → Value → Verdict}
    (hAsks : ∀ d' v', Asks (argument d) v d' v' → (before d' v').Widens (after d' v'))
    (t : ValueType) :
    ((c.inspect d v).resolve before).Widens (((c.addAs name t).inspect d v).resolve after) := by
  rcases Nat.lt_or_ge c.policy.maxDepth (nestingDepth d) with hDeep | hDepth
  · rw [inspect_of_deep hDeep, inspect_of_deep (c := c.addAs name t) hDeep]
    exact .refl _
  · cases hOuter : c.grammar.outerName d with
    | error cause =>
      rw [inspect_of_nameless hDepth hOuter,
        inspect_of_nameless (c := c.addAs name t) hDepth hOuter]
      exact .refl _
    | ok outer =>
      cases hFound : c.catalogue.find? outer with
      | none =>
        have hAfter := hLog.find?_addAs_of_none hName hFound t
        rw [inspect_of_not_found hDepth hOuter hFound,
          inspect_of_not_found (c := c.addAs name t) hDepth hOuter hAfter]
        exact .refl _
      | some types =>
        obtain ⟨more, hMore⟩ := Catalogue.exists_find?_addAs hFound name t
        have hAny := hLog.types_ne_nil hFound
        rw [inspect_of_found hDepth hOuter hFound,
          inspect_of_found (c := c.addAs name t) hDepth hOuter hMore, List.map_append]
        refine widens_firstSettled_append (by simpa using hAny) (fun i hi => ?_) _
        obtain ⟨s, hs, rfl⟩ := List.mem_map.mp hi
        obtain ⟨b, rfl⟩ := hc.types hFound s hs
        rw [hc.grammar]
        exact (b.demands_inspect _ v).widens hAsks

/-- The verdict on a value does not turn from acceptance to mismatch. -/
theorem OfBuiltins.widens_check_addAs (hc : c.OfBuiltins) (hLog : c.catalogue.Records log)
    (hName : name ∈ c.catalogue.names) (b : Builtin) (d : String) (v : Value) :
    (c.check d v).Widens ((c.addAs name b.toType).check d v) := by
  -- Both checkers look up the same name; the checks that its types ask for are of shorter
  -- descriptions, where the verdicts of all types under that name may have widened already.
  induction hn : d.length using Nat.strong_induction_on generalizing d v with
  | _ n ih =>
    rw [hc.check_eq, (hc.addAs name b).check_eq]
    refine hc.widens_inspect_addAs hLog hName (fun d' v' hAsks => ?_) b.toType
    exact ih d'.length (hn ▸ hAsks.length_lt) d' v' rfl

theorem OfBuiltins.nestingDepth_le_of_accepted (hc : c.OfBuiltins) (h : c.check d v = .accepted) :
    nestingDepth d ≤ c.policy.maxDepth := by
  by_contra hDeep
  rw [hc.check_of_tooDeep (Nat.not_le.mp hDeep)] at h
  cases h

/-- Registering a further built-in type under a name that is registered already does not make a
value mismatch that was accepted: the value is accepted still, or its description is found to have a
part without a name.  The value stays accepted when the description is that of a type. -/
theorem check_addAs_of_accepted (hc : c.OfBuiltins) (hRegistered : c.catalogue.Registered)
    (hName : name ∈ c.catalogue.names) (b : Builtin) (h : c.check d v = .accepted) :
    ((c.addAs name b.toType).check d v = .accepted ∨
      ∃ part, (c.addAs name b.toType).check d v = .malformed (.missingName part)) ∧
    (Formed d.toList → (c.addAs name b.toType).check d v = .accepted) := by
  obtain ⟨log, hLog⟩ := hRegistered.exists_records
  have hAfter := hc.addAs name b
  have hDepth := hc.nestingDepth_le_of_accepted h
  have hWidens := hc.widens_check_addAs hLog hName b d v h
  have hCases : (c.addAs name b.toType).check d v = .accepted ∨
      ∃ part, (c.addAs name b.toType).check d v = .malformed (.missingName part) := by
    rcases hVerdict : (c.addAs name b.toType).check d v with (cause | cause) | ⟨⟩
    · rw [hVerdict] at hWidens
      cases hWidens
    · obtain ⟨part, rfl⟩ := hAfter.faultsIn_check hDepth v cause hVerdict
      exact .inr ⟨part, rfl⟩
    · exact .inl rfl
  refine ⟨hCases, fun hFormed => hCases.resolve_right ?_⟩
  rintro ⟨part, hPart⟩
  exact hAfter.understood_of_formed hFormed hDepth v _ hPart

/-- The built-in types, with arrays of anything under the name of arrays, too. -/
def withAnyArrays : Checker := ({} : Checker).addAs "array" Builtin.any.toType

/-- Once integers may be texts, the keys no longer turn arrays away before their values are looked
at, and the value type without a name is met. -/
theorem check_addAs_of_accepted_keys :
    (∃ part, (withAnyArrays.addAs "int" Builtin.string.toType).check "array<int,<x>>"
      (.map [("k", .null)]) = .malformed (.missingName part)) ∧
    (withAnyArrays.addAs "int" Builtin.string.toType).check "array<int,int>"
      (.map [("k", .null)]) = .accepted := by
  have hc : withAnyArrays.OfBuiltins := (ofBuiltins {}).addAs "array" .any
  have hRegistered : withAnyArrays.catalogue.Registered :=
    ⟨Builtin.all.map (fun b => .own b.toType) ++ [.under "array" Builtin.any.toType], rfl⟩
  have hInt : IsName "int".toList := PlainName.isName ⟨"int", by decide, by decide⟩
  have hFormed : Formed "array<int,int>".toList :=
    .keyed HeadName.array.isName (.bare hInt) (.bare hInt)
  have hName : "int" ∈ withAnyArrays.catalogue.names := by decide
  constructor
  · have hWide := check_addAs_of_accepted hc hRegistered hName .string
      (d := "array<int,<x>>") (v := .map [("k", .null)]) (by decide +kernel)
    exact hWide.1.resolve_left (by decide +kernel)
  · have hWide := check_addAs_of_accepted hc hRegistered hName .string
      (d := "array<int,int>") (v := .map [("k", .null)]) (by decide +kernel)
    exact hWide.2 hFormed

end Checker

end Conformance
