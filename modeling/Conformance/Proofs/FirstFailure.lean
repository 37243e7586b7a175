import Conformance.Proofs.Dispatch

/-! Where a check of nested arrays fails.  The way to a part of a value leads through keys and
values of entries; the mismatch that is reported is the first in depth-first order, and its message
names the steps of the way in front of the reason. -/

namespace Conformance

/-! ### The words of a type that refuses a value -/

/-- What a built-in type expects, as it is put in messages. -/
def Builtin.expectation : Builtin → String
  | number => "number (float or integer)"
  | b => b.name

def Builtin.refusal : Builtin → Value → String
  | numeric, .string _ => "Expected numeric but received string does not represent a valid number"
  | b, v => "Expected " ++ b.expectation ++ " but " ++ v.kind ++ " received"

def classRefusal (className : String) : Value → String
  | .object o => o.className ++ " not an instance of " ++ className
  | v => "Expected instance of " ++ className ++ " but received " ++ v.kind

/-- What the type of a name without an argument says of a value that it does not admit. -/
def refusal (name : String) (v : Value) : String :=
  match Builtin.named name with
  | some b => b.refusal v
  | none => classRefusal name v

/-! ### Failures and the way to them -/

/-- A type of arrays within arrays, down to names. -/
inductive NestedArray where
  | leaf (name : PlainName)
  | values (value : NestedArray)
  | entries (key value : NestedArray)

/-- A step to the key or to the value of an entry. -/
inductive Step where
  | key (position : Nat)
  | value (position : Nat) (key : Key)
deriving DecidableEq, Repr

namespace Step

/-- How a message names the step. -/
def text : Step → String
  | key position => "Error in key #" ++ toString position ++ ": "
  | value position k =>
    "Error in value at key #" ++ toString position ++ " ('" ++ k.display ++ "'): "

/-- The place of the step among those into an array: the entries in order, of each the key first. -/
def rank : Step → Nat
  | key position => 2 * position
  | value position _ => 2 * position + 1

/-- The step is taken before another into the same array. -/
def Before (a b : Step) : Prop := a.rank < b.rank

@[simp] theorem rank_key (position : Nat) : (key position).rank = 2 * position := rfl

@[simp] theorem rank_value (position : Nat) (k : Key) :
    (value position k).rank = 2 * position + 1 := rfl

end Step

/-- The depth-first order of the ways into a value. -/
abbrev Earlier (path other : List Step) : Prop := List.Lex Step.Before path other

namespace NestedArray

def tree : NestedArray → TypeTree
  | leaf name => .bare name
  | values value => .generic .array value.tree
  | entries key value => .keyed .array key.tree value.tree

/-- The parts of a value that a type looks into, with the types they have to conform to. -/
inductive Part : NestedArray → Value → Step → NestedArray → Value → Prop where
  | item {value : NestedArray} {es : List (Key × Value)} {i : Nat} {e : Key × Value}
      (h : es[i]? = some e) : Part (values value) (.array es) (.value i e.1) value e.2
  | key {key value : NestedArray} {es : List (Key × Value)} {i : Nat} {e : Key × Value}
      (h : es[i]? = some e) : Part (entries key value) (.array es) (.key i) key (.ofKey e.1)
  | value {key value : NestedArray} {es : List (Key × Value)} {i : Nat} {e : Key × Value}
      (h : es[i]? = some e) : Part (entries key value) (.array es) (.value i e.1) value e.2

/-- The type refuses a value as such, and says why. -/
inductive Refuses : NestedArray → Value → String → Prop where
  | leaf {name : PlainName} {v : Value} (h : ¬ (TypeTree.bare name).Admits v) :
      Refuses (leaf name) v (refusal name.text v)
  | values {value : NestedArray} {v : Value} (h : ∀ es, v ≠ .array es) :
      Refuses (values value) v (refusal "array" v)
  | entries {key value : NestedArray} {v : Value} (h : ∀ es, v ≠ .array es) :
      Refuses (entries key value) v (refusal "array" v)

/-- At the end of a way into the value there is a part that its type refuses. -/
inductive Fails : NestedArray → Value → List Step → String → Prop where
  | here {t : NestedArray} {v : Value} {message : String} (h : Refuses t v message) :
      Fails t v [] message
  | within {t part : NestedArray} {v w : Value} {step : Step} {path : List Step} {message : String}
      (h : Part t v step part w) (later : Fails part w path message) :
      Fails t v (step :: path) message

end NestedArray

/-- The first failure in depth-first order. -/
structure FirstFailure (F : List Step → String → Prop) (path : List Step) (message : String) :
    Prop where
  fails : F path message
  first : ∀ other message', F other message' → other = path ∨ Earlier path other

/-- The verdict accepts when there is no failure, and otherwise gives the way to the first one and
its message. -/
inductive Verdict.Pinpoints : Verdict → (List Step → String → Prop) → Prop where
  | accepted {F : List Step → String → Prop} (h : ∀ path message, ¬ F path message) :
      Pinpoints .accepted F
  | mismatch {F : List Step → String → Prop} {cause : Mismatch} {path : List Step}
      {message : String} (h : FirstFailure F path message)
      (said : cause.message = String.join (path.map Step.text) ++ message) :
      Pinpoints (.mismatch cause) F

open Verdict

variable {answer : String → Value → Verdict}

theorem Verdict.Pinpoints.congr {verdict : Verdict} {F G : List Step → String → Prop}
    (h : verdict.Pinpoints F) (hFG : ∀ path message, F path message ↔ G path message) :
    verdict.Pinpoints G := by
  obtain rfl : F = G := funext fun path => funext fun message => propext (hFG path message)
  exact h

/-- A failure at the step comes first when all others lie behind it. -/
theorem Inspection.pinpoints_require {d : String} {v : Value} {next : Inspection} {step : Step}
    {wider : Mismatch → Mismatch} {F G : List Step → String → Prop}
    (hSaid : ∀ cause, (wider cause).message = step.text ++ cause.message)
    (h : (answer d v).Pinpoints F) (hNext : (next.resolve answer).Pinpoints G)
    (hBehind : ∀ path message, G path message →
      ∃ other rest, path = other :: rest ∧ step.Before other) :
    ((require d v wider next).resolve answer).Pinpoints fun path message =>
      (∃ rest, path = step :: rest ∧ F rest message) ∨ G path message := by
  rw [require, resolve]
  generalize answer d v = verdict at h
  cases h with
  | accepted hNone =>
    refine hNext.congr fun path message => (or_iff_right ?_).symm
    rintro ⟨rest, -, hRest⟩
    exact hNone rest message hRest
  | @mismatch _ cause path message hFirst said =>
    have hStep : FirstFailure (fun path message => (∃ rest, path = step :: rest ∧ F rest message) ∨
        G path message) (step :: path) message := by
      refine ⟨.inl ⟨path, rfl, hFirst.fails⟩, ?_⟩
      rintro other message' (⟨rest, rfl, hRest⟩ | hOther)
      · exact (hFirst.first rest message' hRest).imp (congrArg (step :: ·)) List.Lex.cons
      · obtain ⟨next, rest, rfl, hBefore⟩ := hBehind other message' hOther
        exact .inr (.rel hBefore)
    refine .mismatch hStep ?_
    rw [hSaid, said, List.map_cons, String.join_cons, String.append_assoc]

theorem Verdict.eq_of_require {condition : Bool} {otherwise cause : Mismatch}
    (h : require condition otherwise = .mismatch cause) : cause = otherwise := by
  cases condition with
  | true => cases h
  | false =>
    cases h
    rfl

theorem Verdict.pinpoints_mismatch (cause : Mismatch) :
    Pinpoints (.mismatch cause) fun path message => path = [] ∧ message = cause.message := by
  have hFirst : FirstFailure (fun path message => path = [] ∧ message = cause.message) []
      cause.message := ⟨⟨rfl, rfl⟩, fun _ _ hOther => .inl hOther.1⟩
  exact .mismatch hFirst (by simp)

/-- A verdict on a value as such gives its own words. -/
theorem Verdict.Decides.pinpoints {verdict : Verdict} {p : Prop} (h : verdict.Decides p)
    {words : String} (hWords : ∀ cause, verdict = .mismatch cause → cause.message = words) :
    verdict.Pinpoints fun path message => ¬p ∧ path = [] ∧ message = words := by
  cases h with
  | accepted h => exact .accepted fun _ _ hFails => hFails.1 h
  | mismatch cause h =>
    refine (pinpoints_mismatch cause).congr fun path message => ?_
    rw [hWords cause rfl, and_iff_right h]

/-! ### The entries of an array -/

/-- There is a failure within entries of which the first stands at a position. -/
def FailsAmong (K V : Value → List Step → String → Prop) (position : Nat)
    (es : List (Key × Value)) (path : List Step) (message : String) : Prop :=
  ∃ i e rest, es[i]? = some e ∧
    (path = .key (position + i) :: rest ∧ K (.ofKey e.1) rest message ∨
      path = .value (position + i) e.1 :: rest ∧ V e.2 rest message)

section Entries

variable {K V : Value → List Step → String → Prop} {position : Nat} {es : List (Key × Value)}
  {e : Key × Value} {path : List Step} {message : String}

theorem not_failsAmong_nil : ¬ FailsAmong K V position [] path message := by
  rintro ⟨i, e, rest, hEntry, -⟩
  simp at hEntry

theorem failsAmong_cons_iff : FailsAmong K V position (e :: es) path message ↔
    (∃ rest, path = .key position :: rest ∧ K (.ofKey e.1) rest message) ∨
    (∃ rest, path = .value position e.1 :: rest ∧ V e.2 rest message) ∨
    FailsAmong K V (position + 1) es path message := by
  constructor
  · rintro ⟨i, e', rest, hEntry, h⟩
    cases i with
    | zero =>
      cases hEntry
      rcases h with h | h
      · exact .inl ⟨rest, h⟩
      · exact .inr (.inl ⟨rest, h⟩)
    | succ i =>
      rw [show position + (i + 1) = position + 1 + i by omega] at h
      exact .inr (.inr ⟨i, e', rest, hEntry, h⟩)
  · rintro (⟨rest, h⟩ | ⟨rest, h⟩ | ⟨i, e', rest, hEntry, h⟩)
    · exact ⟨0, e, rest, rfl, .inl h⟩
    · exact ⟨0, e, rest, rfl, .inr h⟩
    · rw [show position + 1 + i = position + (i + 1) by omega] at h
      exact ⟨i + 1, e', rest, hEntry, h⟩

theorem FailsAmong.exists_step (h : FailsAmong K V position es path message) :
    ∃ step rest, path = step :: rest ∧ 2 * position ≤ step.rank := by
  obtain ⟨i, e, rest, -, ⟨rfl, -⟩ | ⟨rfl, -⟩⟩ := h
  · exact ⟨_, _, rfl, by rw [Step.rank_key]; omega⟩
  · exact ⟨_, _, rfl, by rw [Step.rank_value]; omega⟩

theorem Mismatch.message_inKey (cause : Mismatch) :
    (inKey position cause).message = (Step.key position).text ++ cause.message := rfl

theorem Mismatch.message_inValue (key : Key) (cause : Mismatch) :
    (inValue position key cause).message = (Step.value position key).text ++ cause.message := rfl

namespace Builtin

/-- When the answers pinpoint failures in keys and values, the inspection of the entries pinpoints
them in the entries. -/
theorem pinpoints_inspectEntries {keyType valueType : String} (position : Nat)
    (es : List (Key × Value)) (hFree : keyType = "" → ∀ v path message, ¬ K v path message)
    (hKey : keyType ≠ "" → ∀ v, (answer keyType v).Pinpoints (K v))
    (hValue : ∀ v, (answer valueType v).Pinpoints (V v)) :
    ((inspectEntries keyType valueType position es).resolve answer).Pinpoints
      (FailsAmong K V position es) := by
  induction es generalizing position with
  | nil => exact Pinpoints.accepted fun path message => not_failsAmong_nil
  | cons e es ih =>
    have hBehindValue : ∀ path message, FailsAmong K V (position + 1) es path message →
        ∃ other rest, path = other :: rest ∧ (Step.value position e.1).Before other := by
      intro path message h
      obtain ⟨step, rest, rfl, hRank⟩ := h.exists_step
      exact ⟨step, rest, rfl, by rw [Step.Before, Step.rank_value]; omega⟩
    have hEntry := Inspection.pinpoints_require (Mismatch.message_inValue e.1) (hValue e.2)
      (ih (position + 1)) hBehindValue
    rw [inspectEntries]
    split
    · next hTyped =>
      refine hEntry.congr fun path message => ?_
      rw [failsAmong_cons_iff]
      refine (or_iff_right ?_).symm
      rintro ⟨rest, -, hRest⟩
      exact hFree (String.isEmpty_iff.mp hTyped) _ _ _ hRest
    · next hTyped =>
      have hTyped : keyType ≠ "" := fun hEmpty => hTyped (String.isEmpty_iff.mpr hEmpty)
      refine (Inspection.pinpoints_require Mismatch.message_inKey (hKey hTyped _) hEntry ?_).congr
        fun path message => failsAmong_cons_iff.symm
      rintro path message (⟨rest, rfl, -⟩ | h)
      · exact ⟨_, rest, rfl, by simp [Step.Before]⟩
      · obtain ⟨step, rest, rfl, hRank⟩ := h.exists_step
        exact ⟨step, rest, rfl, by rw [Step.Before, Step.rank_key]; omega⟩

theorem pinpoints_inspect_array {argument : String} (h : argument ≠ "")
    (hFree : (Description.keyValue argument).1 = "" → ∀ v path message, ¬ K v path message)
    (hKey : (Description.keyValue argument).1 ≠ "" →
      ∀ v, (answer (Description.keyValue argument).1 v).Pinpoints (K v))
    (hValue : ∀ v, (answer (Description.keyValue argument).2 v).Pinpoints (V v)) (v : Value) :
    ((array.inspect .standard argument v).resolve answer).Pinpoints fun path message =>
      (∃ es, v = .array es ∧ FailsAmong K V 0 es path message) ∨
      (∀ es, v ≠ .array es) ∧ path = [] ∧ message = Conformance.refusal "array" v := by
  cases v with
  | array es =>
    rw [inspect, inspectArray, if_neg fun hEmpty => h (String.isEmpty_iff.mp hEmpty)]
    refine (pinpoints_inspectEntries 0 es hFree hKey hValue).congr fun path message => ?_
    simp
  | _ =>
    refine (pinpoints_mismatch _).congr fun path message => ?_
    simp only [reduceCtorEq, false_and, exists_false, false_or, ne_eq, not_false_iff,
      implies_true, true_and]
    rfl

theorem message_of_inspect {b : Builtin} {v : Value} {cause : Mismatch}
    (h : (b.inspect .standard "" v).resolve answer = .mismatch cause) :
    cause.message = b.refusal v := by
  cases b with
  | numeric =>
    cases v with
    | string s =>
      rw [eq_of_require h]
      rfl
    | _ => cases h <;> rfl
  | _ => cases v <;> cases h <;> rfl

end Builtin

end Entries

/-! ### The check of a nested array -/

namespace NestedArray

variable {name : PlainName} {key value : NestedArray} {v : Value} {path : List Step}
  {message : String}

theorem fails_leaf_iff : (leaf name).Fails v path message ↔
    ¬ (TypeTree.bare name).Admits v ∧ path = [] ∧ message = refusal name.text v := by
  constructor
  · rintro (⟨⟨h⟩⟩ | ⟨⟨⟩, -⟩)
    exact ⟨h, rfl, rfl⟩
  · rintro ⟨h, rfl, rfl⟩
    exact .here (.leaf h)

theorem fails_values_iff : (values value).Fails v path message ↔
    (∃ es, v = .array es ∧ FailsAmong (fun _ _ _ => False) value.Fails 0 es path message) ∨
    (∀ es, v ≠ .array es) ∧ path = [] ∧ message = refusal "array" v := by
  constructor
  · intro h
    cases h with
    | here h =>
      cases h with
      | values h => exact .inr ⟨h, rfl, rfl⟩
    | within h later =>
      cases h with
      | @item _ es i e hEntry =>
        refine .inl ⟨es, rfl, i, e, _, hEntry, .inr ⟨?_, later⟩⟩
        rw [Nat.zero_add]
  · rintro (⟨es, rfl, i, e, rest, hEntry, ⟨-, ⟨⟩⟩ | ⟨rfl, hRest⟩⟩ | ⟨h, rfl, rfl⟩)
    · rw [Nat.zero_add]
      exact .within (.item hEntry) hRest
    · exact .here (.values h)

theorem fails_entries_iff : (entries key value).Fails v path message ↔
    (∃ es, v = .array es ∧ FailsAmong key.Fails value.Fails 0 es path message) ∨
    (∀ es, v ≠ .array es) ∧ path = [] ∧ message = refusal "array" v := by
  constructor
  · intro h
    cases h with
    | here h =>
      cases h with
      | entries h => exact .inr ⟨h, rfl, rfl⟩
    | within h later =>
      cases h with
      | @key _ _ es i e hEntry =>
        refine .inl ⟨es, rfl, i, e, _, hEntry, .inl ⟨?_, later⟩⟩
        rw [Nat.zero_add]
      | @value _ _ es i e hEntry =>
        refine .inl ⟨es, rfl, i, e, _, hEntry, .inr ⟨?_, later⟩⟩
        rw [Nat.zero_add]
  · rintro (⟨es, rfl, i, e, rest, hEntry, ⟨rfl, hRest⟩ | ⟨rfl, hRest⟩⟩ | ⟨h, rfl, rfl⟩)
    · rw [Nat.zero_add]
      exact .within (.key hEntry) hRest
    · rw [Nat.zero_add]
      exact .within (.value hEntry) hRest
    · exact .here (.entries h)

end NestedArray

namespace Checker

open Description

variable {policy : Policy} {v : Value}

theorem message_of_judgeInstance {className : String} {cause : Mismatch}
    (h : judgeInstance className "" v = .mismatch cause) :
    cause.message = classRefusal className v := by
  cases v with
  | object o =>
    rw [eq_of_require h]
    rfl
  | _ =>
    cases h
    rfl

theorem pinpoints_bare (name : PlainName) (v : Value) :
    (({ policy } : Checker).check name.text v).Pinpoints ((NestedArray.leaf name).Fails v) := by
  have hDepth : nestingDepth name.text ≤ policy.maxDepth := by
    rw [show nestingDepth name.text = 0 from (TypeTree.bare name).nestingDepth_print]
    exact Nat.zero_le _
  have hName : outerName name.text = .ok name.text := (TypeTree.bare name).outerName_print
  have hArg : argument name.text = "" := (TypeTree.bare name).argument_print
  refine ((decides_bare hDepth hName hArg v).pinpoints fun cause hCause => ?_).congr
    fun _ _ => NestedArray.fails_leaf_iff.symm
  unfold refusal
  split
  · next b hb =>
    rw [check_of_named hDepth hName hb, hArg] at hCause
    exact Builtin.message_of_inspect hCause
  · next hb =>
    rw [check_of_class hDepth hName hb, hArg] at hCause
    exact message_of_judgeInstance hCause

/-- The check against the type of a nested array pinpoints the first failure. -/
theorem pinpoints_print (t : NestedArray) (h : t.tree.height ≤ policy.maxDepth) (v : Value) :
    (({ policy } : Checker).check t.tree.print v).Pinpoints (t.Fails v) := by
  have hDepth {s : TypeTree} (hs : s.height ≤ policy.maxDepth) :
      nestingDepth s.print ≤ policy.maxDepth := by rwa [s.nestingDepth_print]
  induction t generalizing v with
  | leaf name => exact pinpoints_bare name v
  | values value ih =>
    have hParts := TypeTree.keyValue_argument_generic .array value.tree
    have hGiven := TypeTree.argument_print_ne_empty (t := .generic .array value.tree)
      (Nat.succ_ne_zero _)
    rw [NestedArray.tree] at h ⊢
    rw [check_of_named (hDepth h) (TypeTree.outerName_print _) rfl]
    refine (Builtin.pinpoints_inspect_array (K := fun _ _ _ => False) hGiven (fun _ _ _ _ => id)
      ?_ ?_ v).congr fun _ _ => NestedArray.fails_values_iff.symm <;> rw [hParts]
    · exact fun hSome => absurd rfl hSome
    · exact ih (Nat.le_of_succ_le h)
  | entries key value ihKey ihValue =>
    have hParts := TypeTree.keyValue_argument_keyed .array key.tree value.tree
    have hGiven := TypeTree.argument_print_ne_empty (t := .keyed .array key.tree value.tree)
      (Nat.succ_ne_zero _)
    have hHeights : max key.tree.height value.tree.height + 1 ≤ policy.maxDepth := h
    rw [NestedArray.tree] at h ⊢
    rw [check_of_named (hDepth h) (TypeTree.outerName_print _) rfl]
    refine (Builtin.pinpoints_inspect_array hGiven ?_ ?_ ?_ v).congr
      fun _ _ => NestedArray.fails_entries_iff.symm <;> rw [hParts]
    · exact fun hNone => absurd hNone key.tree.print_ne_empty
    · exact fun _ => ihKey (by omega)
    · exact ihValue (by omega)

/-- A value that does not conform to the type of a nested array is rejected with the first failure
in depth-first order: the message is the steps of the way to it and then its own words. -/
theorem check_first_failure (policy : Policy) (t : NestedArray)
    (h : t.tree.height ≤ policy.maxDepth) {v : Value} (hv : ¬ t.tree.Admits v) :
    ∃ path words cause, FirstFailure (t.Fails v) path words ∧
      ({ policy } : Checker).check t.tree.print v = .mismatch cause ∧
      cause.message = String.join (path.map Step.text) ++ words := by
  have hDecides := decides_print t.tree h v
  have hPinpoints := pinpoints_print t h v
  generalize ({ policy } : Checker).check t.tree.print v = verdict at hDecides hPinpoints
  cases hPinpoints with
  | accepted => exact absurd (decides_accepted_iff.mp hDecides) hv
  | mismatch hFirst said => exact ⟨_, _, _, hFirst, rfl, said⟩

/-- Lists of booleans at keys that are strings. -/
def boolLists : NestedArray :=
  .entries (.leaf ⟨"string", by decide, by decide⟩)
    (.values (.leaf ⟨"bool", by decide, by decide⟩))

/-- The second entry fails in its value, before the third could fail in its key. -/
theorem check_first_failure_table :
    ∃ path words, FirstFailure (boolLists.Fails (.array [(.text "a", .list []),
        (.text "7b", .list [.bool true, .null]), (.int 5, .list [])])) path words ∧
      String.join (path.map Step.text) ++ words = "Error in value at key #1 ('7b'): " ++
        "Error in value at key #1 ('1'): Expected bool but null received" := by
  have hHeight : boolLists.tree.height ≤ ({} : Policy).maxDepth := by decide
  have hCheck : ({} : Checker).check boolLists.tree.print (.array [(.text "a", .list []),
      (.text "7b", .list [.bool true, .null]), (.int 5, .list [])]) =
        .mismatch (.inValue 1 (.text "7b") (.inValue 1 (.int 1) (.kind "bool" "null"))) := by
    decide +kernel
  obtain ⟨path, words, cause, hFirst, hVerdict, hSaid⟩ :=
    check_first_failure {} boolLists hHeight fun hAdmits => nomatch hCheck.symm.trans
      ((decides_print boolLists.tree hHeight _).accepted_iff.mpr hAdmits)
  cases hCheck.symm.trans hVerdict
  exact ⟨path, words, hFirst, hSaid.symm⟩

end Checker

end Conformance
