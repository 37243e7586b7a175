import Conformance.Proofs.NestedChecks
import Conformance.Proofs.Precedence

/-! Values in the place of others.  What built-in types and classes look for in a value is little:
its kind, the text of a string, the kind of a resource, the classes of an object, and in an array
each entry by itself.  `Replaceable` says of two values that nothing is missing in the second, up to
the values of entries; a relation that always comes with it carries acceptance along.  One such
relation puts objects of more derived classes in the place of others. -/

namespace Conformance

/-! ### What has to be kept -/

namespace Value

/-- Each entry of the second array has a counterpart in the first: an entry with the same key and a
related value.  The order of entries does not matter, nor do further entries of the first. -/
def Counterparts (R : Value → Value → Prop) (entries others : List (Key × Value)) : Prop :=
  ∀ e ∈ others, ∃ v, (e.1, v) ∈ entries ∧ R v e.2

/-- The second value can take the place of the first, provided that a value can take the place of
another one when they are related by `R`. -/
inductive Replaceable (R : Value → Value → Prop) : Value → Value → Prop where
  | null : Replaceable R .null .null
  | bool (a b : Bool) : Replaceable R (.bool a) (.bool b)
  | integer (i j : Int64) : Replaceable R (.integer i) (.integer j)
  | float (x y : Binary64) : Replaceable R (.float x) (.float y)
  | string (s : String) : Replaceable R (.string s) (.string s)
  | array {entries others : List (Key × Value)}
      (values : Counterparts R entries others) : Replaceable R (.array entries) (.array others)
  | object {o other : Instance} (classes : ∀ name, o.isA name = true → other.isA name = true) :
      Replaceable R (.object o) (.object other)
  | callable (a b : String) : Replaceable R (.callable a) (.callable b)
  | resource (kind : String) (id other : UInt64) :
      Replaceable R (.resource kind id) (.resource kind other)

/-- A relation under which the second value can always take the place of the first. -/
def Replacement (R : Value → Value → Prop) : Prop := ∀ v w, R v w → Replaceable R v w

end Value

open Value Verdict

/-! ### Inspections that accept -/

theorem Verdict.require_eq_accepted_iff {condition : Bool} {otherwise : Mismatch} :
    require condition otherwise = .accepted ↔ condition = true := by
  cases condition with
  | true => exact iff_of_true rfl rfl
  | false => exact iff_of_false nofun nofun

namespace Inspection

variable {answer : String → Value → Option Verdict} {i : Inspection}

/-- Where a check accepts a value, it accepts those related to it. -/
def Carries (R : Value → Value → Prop) (answer : String → Value → Option Verdict) : Prop :=
  ∀ d v w, R v w → answer d v = some .accepted → answer d w = some .accepted

theorem run_require_eq_accepted_iff {d : String} {v : Value} (wider : Mismatch → Mismatch) :
    (require d v wider i).run answer = some .accepted ↔
      answer d v = some .accepted ∧ i.run answer = some .accepted := by
  rw [require, run]
  rcases answer d v with _ | (rejection | ⟨⟩)
  · simp
  · simp [run, accepted]
  · exact (and_iff_right rfl).symm

end Inspection

open Inspection

namespace Builtin

variable {answer : String → Value → Option Verdict} {R : Value → Value → Prop} {g : Grammar}
  {argument : String} {entries others : List (Key × Value)}

theorem run_inspectEntries_eq_accepted_iff {keyType valueType : String} (position : Nat) :
    (inspectEntries keyType valueType position entries).run answer = some .accepted ↔
      ∀ e ∈ entries, (keyType ≠ "" → answer keyType (.ofKey e.1) = some .accepted) ∧
        answer valueType e.2 = some .accepted := by
  induction entries generalizing position with
  | nil => exact iff_of_true rfl fun e he => absurd he List.not_mem_nil
  | cons e rest ih =>
    rw [inspectEntries, List.forall_mem_cons, ← ih (position + 1)]
    split
    · next hEmpty =>
      rw [run_require_eq_accepted_iff]
      simp [String.isEmpty_iff.mp hEmpty]
    · next hTyped =>
      have hTyped : keyType ≠ "" := fun hEmpty => hTyped (String.isEmpty_iff.mpr hEmpty)
      rw [run_require_eq_accepted_iff, run_require_eq_accepted_iff, ← and_assoc]
      simp [hTyped]

theorem run_inspectArray_eq_accepted_iff :
    (Builtin.array.inspect g argument (.array entries)).run answer = some .accepted ↔
      (argument ≠ "" → ∀ e ∈ entries,
        ((g.keyValue argument).1 ≠ "" →
          answer (g.keyValue argument).1 (.ofKey e.1) = some .accepted) ∧
        answer (g.keyValue argument).2 e.2 = some .accepted) := by
  rw [inspect, inspectArray]
  split
  · next hEmpty => exact iff_of_true rfl fun given => absurd (String.isEmpty_iff.mp hEmpty) given
  · next hGiven =>
    have hGiven : argument ≠ "" := fun hEmpty => hGiven (String.isEmpty_iff.mpr hEmpty)
    rw [forall_prop_of_true hGiven]
    exact run_inspectEntries_eq_accepted_iff 0

theorem run_inspectArray_of_counterparts (hAnswer : Carries R answer)
    (hValues : Counterparts R entries others)
    (h : (Builtin.array.inspect g argument (.array entries)).run answer = some .accepted) :
    (Builtin.array.inspect g argument (.array others)).run answer = some .accepted := by
  rw [run_inspectArray_eq_accepted_iff] at h ⊢
  intro given e he
  obtain ⟨v, hMem, hR⟩ := hValues e he
  obtain ⟨hKey, hValue⟩ := h given (e.1, v) hMem
  exact ⟨hKey, hAnswer _ v e.2 hR hValue⟩

theorem run_inspect_of_replaceable (b : Builtin) {v w : Value} (hAnswer : Carries R answer)
    (h : Replaceable R v w) (hv : (b.inspect g argument v).run answer = some .accepted) :
    (b.inspect g argument w).run answer = some .accepted := by
  -- But for arrays and objects the verdicts on the two values are the same.
  cases h with
  | array hValues =>
    cases b with
    | array => exact run_inspectArray_of_counterparts hAnswer hValues hv
    | _ => exact hv
  | object _ =>
    cases b with
    | any | object => exact hv
    | _ => cases hv
  | _ => cases b <;> exact hv

end Builtin

/-! ### Checks that accept -/

namespace Checker

variable {c : Checker} {R : Value → Value → Prop} {d : String} {v w : Value}

theorem judgeInstance_of_replaceable {name argument : String} (h : Replaceable R v w)
    (hv : judgeInstance name argument v = .accepted) :
    judgeInstance name argument w = .accepted := by
  unfold judgeInstance at hv ⊢
  split at hv
  · cases hv
  · next hBare =>
    rw [if_neg hBare]
    cases h with
    | object classes =>
      exact require_eq_accepted_iff.mpr (classes name (require_eq_accepted_iff.mp hv))
    | _ => cases hv

theorem run_inspect_of_replaceable {answer : String → Value → Option Verdict}
    (hc : c.catalogue = .builtins) (hAnswer : Carries R answer) (h : Replaceable R v w)
    (hv : (c.inspect d v).run answer = some .accepted) :
    (c.inspect d w).run answer = some .accepted := by
  rcases inspect_cases hc d with ⟨cause, hEq⟩ | ⟨-, b, -, -, hEq⟩ | ⟨name, hEq⟩
  · rw [hEq] at hv
    cases hv
  · rw [hEq, run_firstSettled_singleton] at hv ⊢
    exact b.run_inspect_of_replaceable hAnswer h hv
  · rw [hEq] at hv ⊢
    exact congrArg some (judgeInstance_of_replaceable h (Option.some.inj hv))

/-- Acceptance is carried along from a value to one that takes its place. -/
theorem carries_checkWithin (hc : c.catalogue = .builtins) (hR : Replacement R) (n : Nat) :
    Carries R (c.checkWithin n) := by
  -- By induction on the budget: whatever the grammar makes of a description, the checks of entries
  -- have a smaller one.
  induction n with
  | zero =>
    intro d v w _ hv
    cases hv
  | succ n ih =>
    intro d v w h hv
    rw [checkWithin] at hv ⊢
    exact run_inspect_of_replaceable hc ih (hR v w h) hv

theorem check_of_replacement (hc : c.catalogue = .builtins) (hR : Replacement R) (h : R v w)
    (hv : c.check d v = .accepted) : c.check d w = .accepted :=
  check_eq_of_checkWithin (Nat.le_refl _)
    (carries_checkWithin hc hR (budget d) d v w h (checkWithin_of_check hv))

end Checker

/-! ### Objects of more derived classes -/

/-- Whatever the one object extends or implements, by whatever spelling of the name, the other one
does, too. -/
def Instance.Extends (other o : Instance) : Prop :=
  ∀ name ∈ o.names, ∃ derived ∈ other.names, sameClass name derived = true

theorem sameClass_eq_true_iff {a b : String} : sameClass a b = true ↔ classKey a = classKey b :=
  decide_eq_true_iff

theorem Instance.isA_eq_true_iff {o : Instance} {name : String} :
    o.isA name = true ↔ ∃ own ∈ o.names, classKey own = classKey name := by
  simp only [isA, List.any_eq_true, sameClass_eq_true_iff]

theorem Instance.Extends.isA {o other : Instance} (h : other.Extends o) {name : String}
    (hName : o.isA name = true) : other.isA name = true := by
  rw [isA_eq_true_iff] at hName ⊢
  obtain ⟨own, hOwn, hKey⟩ := hName
  obtain ⟨derived, hDerived, hSame⟩ := h own hOwn
  exact ⟨derived, hDerived, (sameClass_eq_true_iff.mp hSame).symm.trans hKey⟩

mutual

/-- The second value is the first one, except that objects in it, at any depth, may have been
replaced by objects that extend them. -/
inductive Value.MoreDerived : Value → Value → Prop where
  | same (v : Value) : MoreDerived v v
  | object {o other : Instance} (derived : other.Extends o) :
      MoreDerived (.object o) (.object other)
  | array {entries others : List (Key × Value)} (h : EntriesMoreDerived entries others) :
      MoreDerived (.array entries) (.array others)

/-- The same with the values of entries, which keep their keys and their order. -/
inductive Value.EntriesMoreDerived : List (Key × Value) → List (Key × Value) → Prop where
  | nil : EntriesMoreDerived [] []
  | cons {key : Key} {v w : Value} {rest later : List (Key × Value)} (value : MoreDerived v w)
      (h : EntriesMoreDerived rest later) :
      EntriesMoreDerived ((key, v) :: rest) ((key, w) :: later)

end

namespace Value

theorem EntriesMoreDerived.counterparts {entries others : List (Key × Value)}
    (h : EntriesMoreDerived entries others) : Counterparts MoreDerived entries others := by
  induction others generalizing entries with
  | nil => exact fun e he => absurd he List.not_mem_nil
  | cons first later ih =>
    cases h with
    | cons value h =>
      intro e he
      rcases List.mem_cons.mp he with rfl | he
      · exact ⟨_, List.mem_cons_self, value⟩
      · obtain ⟨v, hMem, hValue⟩ := ih h e he
        exact ⟨v, List.mem_cons_of_mem _ hMem, hValue⟩

theorem replaceable_self (v : Value) : Replaceable MoreDerived v v := by
  cases v with
  | array entries => exact .array fun e he => ⟨e.2, he, .same e.2⟩
  | object o => exact .object fun _ h => h
  | null => exact .null
  | bool b => exact .bool b b
  | integer i => exact .integer i i
  | float x => exact .float x x
  | string s => exact .string s
  | callable name => exact .callable name name
  | resource kind id => exact .resource kind id id

theorem replacement_moreDerived : Replacement MoreDerived := by
  intro v w h
  cases h with
  | same => exact replaceable_self v
  | object derived => exact .object fun _ => derived.isA
  | array h => exact .array h.counterparts

end Value

namespace Checker

/-- A value that is accepted stays accepted when objects in it are replaced by more derived ones. -/
theorem check_of_moreDerived (policy : Policy) (grammar : Grammar) (d : String) {v w : Value}
    (h : MoreDerived v w) (hv : ({ policy, grammar } : Checker).check d v = .accepted) :
    ({ policy, grammar } : Checker).check d w = .accepted :=
  check_of_replacement rfl replacement_moreDerived h hv

/-- A square among the shapes of a table passes for the shape that it replaces. -/
theorem check_of_moreDerived_square :
    ({} : Checker).check "array<string,array<Shape>>" (.array [(.text "all",
      .list [.object ⟨"shape", []⟩, .object ⟨"Square", ["Countable", "\\SHAPE"]⟩])]) =
        .accepted := by
  have hShape : ({} : Checker).check "array<string,array<Shape>>" (.array [(.text "all",
      .list [.object ⟨"shape", []⟩, .object ⟨"\\Shape", []⟩])]) = .accepted := by
    decide +kernel
  have hSquare : Instance.Extends ⟨"Square", ["Countable", "\\SHAPE"]⟩ ⟨"\\Shape", []⟩ := by
    unfold Instance.Extends
    decide
  refine check_of_moreDerived {} .standard _ (.array (.cons ?_ .nil)) hShape
  exact .array (.cons (.same _) (.cons (.object hSquare) .nil))

end Checker

end Conformance
