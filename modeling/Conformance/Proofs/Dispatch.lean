import Conformance.Proofs.Termination
import Conformance.Proofs.TypeTree

/-! The check of a value against the description of a type says whether the value conforms to the
type.  `Decides` is what every step keeps: a verdict that accepts when a condition holds, is a
mismatch when it does not, and never finds the description malformed. -/

namespace Conformance

/-! ### Verdicts that settle a question -/

/-- The verdict accepts when a condition holds, and is a mismatch otherwise. -/
inductive Verdict.Decides : Verdict → Prop → Prop where
  | accepted {p : Prop} (h : p) : Decides .accepted p
  | mismatch {p : Prop} (cause : Mismatch) (h : ¬p) : Decides (.mismatch cause) p

namespace Verdict

variable {verdict : Verdict} {p q : Prop}

@[simp] theorem decides_accepted_iff : Decides (.ok ()) p ↔ p := by
  constructor
  · intro h
    cases h with
    | accepted h => exact h
  · exact .accepted

@[simp] theorem decides_mismatch_iff {cause : Mismatch} :
    Decides (.error (.mismatch cause)) p ↔ ¬p := by
  constructor
  · intro h
    cases h with
    | mismatch _ h => exact h
  · exact .mismatch cause

theorem Decides.accepted_iff (h : verdict.Decides p) : verdict = .accepted ↔ p := by
  cases h with
  | accepted h => exact ⟨fun _ => h, fun _ => rfl⟩
  | mismatch cause h => exact ⟨by rintro ⟨⟩, fun hp => absurd hp h⟩

theorem Decides.ne_malformed (h : verdict.Decides p) (cause : DescriptionError) :
    verdict ≠ .malformed cause := by
  rintro rfl
  cases h

theorem Decides.exists_mismatch (h : verdict.Decides p) (hp : ¬p) :
    ∃ cause, verdict = .mismatch cause := by
  cases h with
  | accepted h => exact absurd h hp
  | mismatch cause h => exact ⟨cause, rfl⟩

theorem Decides.congr (h : verdict.Decides p) (hpq : p ↔ q) : verdict.Decides q := by
  rwa [← propext hpq]

theorem decides_require {condition : Bool} (h : condition = true ↔ p) (otherwise : Mismatch) :
    (require condition otherwise).Decides p := by
  cases condition with
  | true => exact .accepted (h.mp rfl)
  | false => exact .mismatch _ fun hp => absurd (h.mpr hp) (by decide)

end Verdict

open Verdict

/-! ### Inspections carried through -/

namespace Inspection

variable {answer : String → Value → Verdict} {p q : Prop}

theorem resolve_andThen (i : Inspection) (next : Verdict → Inspection) :
    (i.andThen next).resolve answer = (next (i.resolve answer)).resolve answer := by
  induction i with
  | settled verdict => rfl
  | ask d v rest ih => exact ih _

theorem resolve_firstSettled_singleton (i : Inspection) :
    (firstSettled none [i]).resolve answer = i.resolve answer := by
  rw [firstSettled, resolve_andThen]
  rcases i.resolve answer with (cause | cause) | accepted <;> rfl

theorem decides_require {d : String} {v : Value} {next : Inspection}
    (h : (answer d v).Decides p) (hNext : (next.resolve answer).Decides q)
    (wider : Mismatch → Mismatch) :
    ((require d v wider next).resolve answer).Decides (p ∧ q) := by
  rw [require, resolve]
  generalize answer d v = verdict at h
  cases h with
  | accepted h => exact hNext.congr (and_iff_right h).symm
  | mismatch cause h => exact .mismatch _ fun hpq => h hpq.1

end Inspection

/-! ### The built-in types -/

namespace Builtin

variable {g : Grammar} {answer : String → Value → Verdict}

/-- When the answers decide what the keys and the values of the entries have to meet, the inspection
of the entries decides it of all entries. -/
theorem decides_inspectEntries {keyType valueType : String} {K V : Value → Prop}
    {entries : List (Key × Value)} (position : Nat)
    (hFree : keyType = "" → ∀ e ∈ entries, K (.ofKey e.1))
    (hKey : keyType ≠ "" → ∀ e ∈ entries, (answer keyType (.ofKey e.1)).Decides (K (.ofKey e.1)))
    (hValue : ∀ e ∈ entries, (answer valueType e.2).Decides (V e.2)) :
    ((inspectEntries keyType valueType position entries).resolve answer).Decides
      (∀ e ∈ entries, K (.ofKey e.1) ∧ V e.2) := by
  induction entries generalizing position with
  | nil => exact Decides.accepted fun e he => absurd he List.not_mem_nil
  | cons e rest ih =>
    have hRest := ih (position + 1)
      (fun hTyped e he => hFree hTyped e (List.mem_cons_of_mem _ he))
      (fun hTyped e he => hKey hTyped e (List.mem_cons_of_mem _ he))
      (fun e he => hValue e (List.mem_cons_of_mem _ he))
    have hEntry := Inspection.decides_require (hValue e List.mem_cons_self) hRest
      (.inValue position e.1)
    rw [inspectEntries]
    split
    · next hTyped =>
      have hFirst := hFree (String.isEmpty_iff.mp hTyped) e List.mem_cons_self
      refine hEntry.congr ?_
      rw [List.forall_mem_cons]
      exact ⟨fun h => ⟨⟨hFirst, h.1⟩, h.2⟩, fun h => ⟨h.1.2, h.2⟩⟩
    · next hTyped =>
      have hFirst := hKey (fun hEmpty => hTyped (String.isEmpty_iff.mpr hEmpty)) e
        List.mem_cons_self
      refine (Inspection.decides_require hFirst hEntry (.inKey position)).congr ?_
      rw [List.forall_mem_cons, and_assoc]

/-- Without an argument a built-in type looks at the value alone; all but arrays and resources do
so with any argument. -/
theorem decides_inspect (b : Builtin) {argument : String}
    (h : argument = "" ∨ b ≠ .array ∧ b ≠ .resource) (v : Value) :
    ((b.inspect g argument v).resolve answer).Decides (b.Holds v) := by
  cases b with
  | any => exact .accepted trivial
  | array =>
    obtain rfl : argument = "" := h.resolve_right fun hNe => hNe.1 rfl
    cases v with
    | array entries => exact Decides.accepted ⟨entries, rfl⟩
    | _ => exact .mismatch _ (by simp [Holds])
  | resource =>
    obtain rfl : argument = "" := h.resolve_right fun hNe => hNe.2 rfl
    cases v with
    | resource kind id => exact Decides.accepted ⟨kind, id, rfl⟩
    | _ => exact .mismatch _ (by simp [Holds])
  | numeric =>
    cases v with
    | string s => exact Verdict.decides_require (by simp [Holds]) _
    | _ => simp [inspect, Inspection.resolve, judgeNumeric, Value.isNumber, Holds, require,
        accepted, mismatch]
  | number =>
    cases v <;> simp [inspect, Inspection.resolve, Value.isNumber, Holds, require, accepted,
      mismatch]
  | bool | callable | float | integer | object | string =>
    cases v <;> simp [inspect, Inspection.resolve, Holds, accepted, mismatch]

theorem decides_inspect_resource {argument : String} (h : argument ≠ "") (v : Value) :
    ((Builtin.resource.inspect g argument v).resolve answer).Decides
      (∃ kind id, v = .resource kind id ∧ kind ∈ g.alternatives argument) := by
  cases v with
  | resource kind id =>
    refine Verdict.decides_require ?_ _
    simp [h]
  | _ => exact .mismatch _ (by simp)

theorem decides_inspect_array {argument keyType valueType : String} {K V : Value → Prop}
    (h : argument ≠ "") (hParts : g.keyValue argument = (keyType, valueType))
    (hFree : keyType = "" → ∀ v, K v) (hKey : keyType ≠ "" → ∀ v, (answer keyType v).Decides (K v))
    (hValue : ∀ v, (answer valueType v).Decides (V v)) (v : Value) :
    ((Builtin.array.inspect g argument v).resolve answer).Decides
      (∃ entries, v = .array entries ∧ ∀ e ∈ entries, K (.ofKey e.1) ∧ V e.2) := by
  cases v with
  | array entries =>
    rw [inspect, inspectArray, if_neg fun hEmpty => h (String.isEmpty_iff.mp hEmpty), hParts]
    refine (decides_inspectEntries 0 (fun hNone e _ => hFree hNone _)
      (fun hSome e _ => hKey hSome _) fun e _ => hValue e.2).congr ?_
    simp
  | _ => exact .mismatch _ (by simp)

end Builtin

/-! ### The built-in types by name -/

theorem Catalogue.entries_builtins : Catalogue.builtins.entries =
    [("any", [Builtin.any.toType]), ("mixed", [Builtin.any.toType]),
      ("array", [Builtin.array.toType]), ("bool", [Builtin.bool.toType]),
      ("boolean", [Builtin.bool.toType]), ("callable", [Builtin.callable.toType]),
      ("float", [Builtin.float.toType]), ("double", [Builtin.float.toType]),
      ("integer", [Builtin.integer.toType]), ("int", [Builtin.integer.toType]),
      ("number", [Builtin.number.toType]), ("numeric", [Builtin.numeric.toType]),
      ("object", [Builtin.object.toType]), ("resource", [Builtin.resource.toType]),
      ("string", [Builtin.string.toType])] := rfl

theorem Catalogue.find?_builtins (name : String) :
    Catalogue.builtins.find? name = (Builtin.named name).map fun b => [b.toType] := by
  rw [Catalogue.find?, Catalogue.entries_builtins]
  unfold Builtin.named
  split
  all_goals simp_all [Entries.get?, eq_comm]

namespace Builtin

theorem isPlain_of_named {name : String} {b : Builtin} (h : named name = some b) {c : Char}
    (hc : c ∈ name.toList) : isPlain c = true := by
  have hPlain : name.toList.all isPlain = true := by
    unfold named at h
    split at h
    case h_16 => cases h
    all_goals decide
  exact List.all_eq_true.mp hPlain c hc

theorem named_of_mem {s : List Char} {c : Char} (hMem : c ∈ s) (hc : isPlain c = false) :
    named (String.ofList s) = none := by
  by_contra hSome
  obtain ⟨b, hb⟩ := Option.ne_none_iff_exists'.mp hSome
  have := isPlain_of_named hb (show c ∈ (String.ofList s).toList by rwa [String.toList_ofList])
  rw [hc] at this
  cases this

theorem eq_resource_of_named {name : String} (h : named name = some .resource) :
    name = "resource" := by
  unfold named at h
  split at h
  case h_14 => rfl
  all_goals cases h

end Builtin

/-! ### Descriptions that a checker reads -/

/-- The values that conform to the type of a name with an argument, when the keys of arrays have to
meet one condition and their values another: other built-in types ignore an argument, and a class
takes none.  Resources, which look into an argument in their own way, are left out. -/
def Builtin.AdmitsParts (name : String) (K V : Value → Prop) (v : Value) : Prop :=
  match named name with
  | some .array => ∃ entries, v = .array entries ∧ ∀ e ∈ entries, K (.ofKey e.1) ∧ V e.2
  | some b => b.Holds v
  | none => False

theorem TypeTree.admits_generic_iff {name : HeadName} {value : TypeTree} {v : Value} :
    (generic name value).Admits v ↔
      Builtin.AdmitsParts name.text (fun _ => True) value.Admits v := by
  cases hb : Builtin.named name.text with
  | none => simp [Admits, Builtin.AdmitsParts, hb]
  | some b => cases b <;> simp [Admits, Builtin.AdmitsParts, hb]

theorem TypeTree.admits_keyed_iff {name : HeadName} {key value : TypeTree} {v : Value} :
    (keyed name key value).Admits v ↔ Builtin.AdmitsParts name.text key.Admits value.Admits v := by
  cases hb : Builtin.named name.text with
  | none => simp [Admits, Builtin.AdmitsParts, hb]
  | some b => cases b <;> simp [Admits, Builtin.AdmitsParts, hb]

namespace Checker

open Description

/-- The checker takes a description for a name with an argument, which is empty where there is none,
and every check that the inspection asks for is answered. -/
structure Reads (c : Checker) (d name argument : String) : Prop where
  depth : nestingDepth d ≤ c.policy.maxDepth
  outerName : c.grammar.outerName d = .ok name
  argument : c.grammar.argument d = argument
  check_eq : ∀ v, c.check d v = (c.inspect d v).resolve c.check

namespace Reads

variable {c : Checker} {d name argument : String}

theorem check_of_sole (h : c.Reads d name argument) {t : ValueType}
    (hType : c.catalogue.find? name = some [t]) (v : Value) :
    c.check d v = (t.inspect c.grammar argument v).resolve c.check := by
  rw [h.check_eq, inspect_of_found h.depth h.outerName hType, h.argument]
  exact Inspection.resolve_firstSettled_singleton _

section Builtins

variable (h : c.Reads d name argument)
  (hFind : c.catalogue.find? name = Catalogue.builtins.find? name)

include h hFind

theorem check_of_named {b : Builtin} (hb : Builtin.named name = some b) (v : Value) :
    c.check d v = (b.inspect c.grammar argument v).resolve c.check := by
  refine h.check_of_sole (t := b.toType) ?_ v
  rw [hFind, Catalogue.find?_builtins, hb]
  rfl

theorem check_of_class (hb : Builtin.named name = none) (v : Value) :
    c.check d v = judgeInstance name argument v := by
  have hNone : c.catalogue.find? name = none := by
    rw [hFind, Catalogue.find?_builtins, hb]
    rfl
  rw [h.check_eq, inspect_of_not_found h.depth h.outerName hNone, h.argument, Inspection.resolve]

theorem decides_class (hb : Builtin.named name = none) (hArg : argument = "") (v : Value) :
    (c.check d v).Decides (v.IsInstance name) := by
  rw [h.check_of_class hFind hb, hArg]
  cases v with
  | object o => exact Verdict.decides_require (by simp [Value.IsInstance]) _
  | _ => exact .mismatch _ (by simp [Value.IsInstance])

theorem decides_generic_class (hb : Builtin.named name = none) (hArg : argument ≠ "") (v : Value) :
    (c.check d v).Decides False := by
  rw [h.check_of_class hFind hb]
  unfold judgeInstance
  rw [if_pos (by simp [hArg])]
  exact .mismatch _ id

theorem decides_resource (hb : Builtin.named name = some .resource) (hArg : argument ≠ "")
    (v : Value) : (c.check d v).Decides
      (∃ kind id, v = .resource kind id ∧ kind ∈ c.grammar.alternatives argument) := by
  rw [h.check_of_named hFind hb]
  exact Builtin.decides_inspect_resource hArg v

/-- When checks of the key and value types decide what keys and values have to meet, the check
decides whether a value conforms to the name with these as its argument. -/
theorem decides_parts (hb : Builtin.named name ≠ some .resource) (hArg : argument ≠ "")
    {keyType valueType : String} (hParts : c.grammar.keyValue argument = (keyType, valueType))
    {K V : Value → Prop} (hFree : keyType = "" → ∀ v, K v)
    (hKey : keyType ≠ "" → ∀ v, (c.check keyType v).Decides (K v))
    (hValue : ∀ v, (c.check valueType v).Decides (V v)) (v : Value) :
    (c.check d v).Decides (Builtin.AdmitsParts name K V v) := by
  rw [Builtin.AdmitsParts]
  split
  · next hArray =>
    rw [h.check_of_named hFind hArray]
    exact Builtin.decides_inspect_array hArg hParts hFree hKey hValue v
  · next b hArray hNamed =>
    rw [h.check_of_named hFind hNamed]
    refine b.decides_inspect (.inr ⟨?_, ?_⟩) v
    · rintro rfl
      exact hArray rfl
    · rintro rfl
      exact hb hNamed
  · next hNone => exact h.decides_generic_class hFind hNone hArg v

end Builtins

theorem decides_bare {name : PlainName} (h : c.Reads d name.text "")
    (hFind : c.catalogue.find? name.text = Catalogue.builtins.find? name.text) (v : Value) :
    (c.check d v).Decides ((TypeTree.bare name).Admits v) := by
  rw [TypeTree.Admits]
  split
  · next b hb =>
    rw [h.check_of_named hFind hb]
    exact b.decides_inspect (.inl rfl) v
  · next hb => exact h.decides_class hFind hb rfl v

end Reads

end Checker

theorem HeadName.not_resource (name : HeadName) : Builtin.named name.text ≠ some .resource :=
  fun hb => name.ne_resource (Builtin.eq_resource_of_named hb)

/-! ### The checker with the built-in types -/

namespace Checker

open Description

variable {policy : Policy} {d name : String} {v : Value}

theorem ofBuiltins (policy : Policy) : ({ policy } : Checker).OfBuiltins where
  types := by
    intro name types h t ht
    rw [Catalogue.find?_builtins] at h
    obtain ⟨b, -, rfl⟩ := Option.map_eq_some_iff.mp h
    exact ⟨b, List.mem_singleton.mp ht⟩
  grammar := rfl

theorem reads (hDepth : nestingDepth d ≤ policy.maxDepth) (hName : outerName d = .ok name) :
    ({ policy } : Checker).Reads d name (argument d) where
  depth := hDepth
  outerName := hName
  argument := rfl
  check_eq := (ofBuiltins policy).check_eq d

theorem inspect_of_named {b : Builtin} (hDepth : nestingDepth d ≤ policy.maxDepth)
    (hName : outerName d = .ok name) (hb : Builtin.named name = some b) (v : Value) :
    ({ policy } : Checker).inspect d v =
      .firstSettled none [b.inspect .standard (argument d) v] := by
  have hTypes : Catalogue.builtins.find? name = some [b.toType] := by
    rw [Catalogue.find?_builtins, hb]
    rfl
  exact inspect_of_found (c := { policy }) hDepth hName hTypes v

/-- What a description means to a checker of the built-in types is the same for all values: it is
malformed, or has the name of a built-in type, which then inspects the value, or that of a class. -/
theorem inspect_cases {c : Checker} (hc : c.catalogue = .builtins) (d : String) :
    (∃ cause, ∀ v, c.inspect d v = .settled (.malformed cause)) ∨
    (∃ name b, c.grammar.outerName d = .ok name ∧ Builtin.named name = some b ∧
      ∀ v, c.inspect d v = .firstSettled none [b.inspect c.grammar (c.grammar.argument d) v]) ∨
    ∃ name, ∀ v, c.inspect d v = .settled (judgeInstance name (c.grammar.argument d) v) := by
  rcases Nat.lt_or_ge c.policy.maxDepth (nestingDepth d) with hDeep | hDepth
  · exact .inl ⟨_, inspect_of_deep hDeep⟩
  · cases hName : c.grammar.outerName d with
    | error cause => exact .inl ⟨cause, inspect_of_nameless hDepth hName⟩
    | ok name =>
      have hFound := Catalogue.find?_builtins name
      rw [← hc] at hFound
      cases hb : Builtin.named name with
      | some b =>
        rw [hb, Option.map_some] at hFound
        exact .inr (.inl ⟨name, b, rfl, hb, inspect_of_found hDepth hName hFound⟩)
      | none =>
        rw [hb, Option.map_none] at hFound
        exact .inr (.inr ⟨name, inspect_of_not_found hDepth hName hFound⟩)

theorem check_of_named {b : Builtin} (hDepth : nestingDepth d ≤ policy.maxDepth)
    (hName : outerName d = .ok name) (hb : Builtin.named name = some b) (v : Value) :
    ({ policy } : Checker).check d v =
      (b.inspect .standard (argument d) v).resolve ({ policy } : Checker).check :=
  (reads hDepth hName).check_of_named rfl hb v

theorem check_of_class (hDepth : nestingDepth d ≤ policy.maxDepth)
    (hName : outerName d = .ok name) (hb : Builtin.named name = none) (v : Value) :
    ({ policy } : Checker).check d v = judgeInstance name (argument d) v :=
  (reads hDepth hName).check_of_class rfl hb v

theorem decides_class (hDepth : nestingDepth d ≤ policy.maxDepth)
    (hName : outerName d = .ok name) (hb : Builtin.named name = none) (hArg : argument d = "")
    (v : Value) : (({ policy } : Checker).check d v).Decides (v.IsInstance name) :=
  (reads hDepth hName).decides_class rfl hb hArg v

theorem decides_generic_class (hDepth : nestingDepth d ≤ policy.maxDepth)
    (hName : outerName d = .ok name) (hb : Builtin.named name = none) (hArg : argument d ≠ "")
    (v : Value) : (({ policy } : Checker).check d v).Decides False :=
  (reads hDepth hName).decides_generic_class rfl hb hArg v

theorem decides_bare {name : PlainName} (hDepth : nestingDepth d ≤ policy.maxDepth)
    (hName : outerName d = .ok name.text) (hArg : argument d = "") (v : Value) :
    (({ policy } : Checker).check d v).Decides ((TypeTree.bare name).Admits v) := by
  have hReads := reads hDepth hName
  rw [hArg] at hReads
  exact hReads.decides_bare rfl v

theorem decides_generic {name : HeadName} {value : TypeTree} {valueType : String}
    (hDepth : nestingDepth d ≤ policy.maxDepth) (hName : outerName d = .ok name.text)
    (hArg : argument d ≠ "") (hParts : keyValue (argument d) = ("", valueType))
    (hValue : ∀ v, (({ policy } : Checker).check valueType v).Decides (value.Admits v))
    (v : Value) :
    (({ policy } : Checker).check d v).Decides ((TypeTree.generic name value).Admits v) := by
  refine ((reads hDepth hName).decides_parts rfl name.not_resource hArg hParts
    (fun _ _ => trivial) (fun hTyped => absurd rfl hTyped) hValue v).congr ?_
  exact TypeTree.admits_generic_iff.symm

theorem decides_keyed {name : HeadName} {key value : TypeTree} {keyType valueType : String}
    (hDepth : nestingDepth d ≤ policy.maxDepth) (hName : outerName d = .ok name.text)
    (hArg : argument d ≠ "") (hParts : keyValue (argument d) = (keyType, valueType))
    (hTyped : keyType ≠ "")
    (hKey : ∀ v, (({ policy } : Checker).check keyType v).Decides (key.Admits v))
    (hValue : ∀ v, (({ policy } : Checker).check valueType v).Decides (value.Admits v))
    (v : Value) :
    (({ policy } : Checker).check d v).Decides ((TypeTree.keyed name key value).Admits v) := by
  refine ((reads hDepth hName).decides_parts rfl name.not_resource hArg hParts
    (fun hFree => absurd hFree hTyped) (fun _ => hKey) hValue v).congr ?_
  exact TypeTree.admits_keyed_iff.symm

/-- The check against a printed type decides whether the value conforms to the type. -/
theorem decides_print (t : TypeTree) (h : t.height ≤ policy.maxDepth) (v : Value) :
    (({ policy } : Checker).check t.print v).Decides (t.Admits v) := by
  have hDepth {s : TypeTree} (hs : s.height ≤ policy.maxDepth) :
      nestingDepth s.print ≤ policy.maxDepth := by rwa [s.nestingDepth_print]
  induction t generalizing v with
  | bare name =>
    exact decides_bare (hDepth h) (TypeTree.outerName_print _) (TypeTree.argument_print _) v
  | generic name value ih =>
    have hGiven := TypeTree.argument_print_ne_empty (t := .generic name value) (Nat.succ_ne_zero _)
    exact decides_generic (hDepth h) (TypeTree.outerName_print _) hGiven
      (TypeTree.keyValue_argument_generic name value) (ih (Nat.le_of_succ_le h)) v
  | keyed name key value ihKey ihValue =>
    have hGiven :=
      TypeTree.argument_print_ne_empty (t := .keyed name key value) (Nat.succ_ne_zero _)
    have hHeights : max key.height value.height + 1 ≤ policy.maxDepth := h
    exact decides_keyed (hDepth h) (TypeTree.outerName_print _) hGiven
      (TypeTree.keyValue_argument_keyed name key value) key.print_ne_empty (ihKey (by omega))
      (ihValue (by omega)) v
  | resource kind more =>
    have hGiven := TypeTree.argument_print_ne_empty (t := .resource kind more) Nat.one_ne_zero
    have hReads := reads (hDepth h) (TypeTree.outerName_print _)
    refine (hReads.decides_resource rfl rfl hGiven v).congr ?_
    show (∃ received id, v = .resource received id ∧ received ∈ alternatives (argument _)) ↔ _
    rw [TypeTree.argument_print, TypeTree.printArgument, TypeTree.alternatives_printKinds]
    rfl

/-- The check against a description that is nested too deep says so; any other description of a
type is understood, and the values that it accepts are those that conform to the type. -/
theorem check_print (policy : Policy) (t : TypeTree) (v : Value) :
    (policy.maxDepth < t.height →
      ({ policy } : Checker).check t.print v = .malformed (.tooDeep t.print policy.maxDepth)) ∧
    (t.height ≤ policy.maxDepth →
      (∀ cause, ({ policy } : Checker).check t.print v ≠ .malformed cause) ∧
      (({ policy } : Checker).check t.print v = .accepted ↔ t.Admits v)) := by
  constructor
  · intro hDeep
    rw [(ofBuiltins policy).check_eq, inspect, if_pos (by rwa [TypeTree.nestingDepth_print])]
    rfl
  · intro h
    have hDecides := decides_print t h v
    exact ⟨hDecides.ne_malformed, hDecides.accepted_iff⟩

end Checker

end Conformance
