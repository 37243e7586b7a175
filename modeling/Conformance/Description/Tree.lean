import Conformance.Description.Grammar

/-! The tree of a description: its outermost name and, below it, the trees of the key and value
types of its argument.  Unions inside an argument are not split.  The tree is there to be looked at;
its names are the names of the descriptions that checks can come to from the one it is made from. -/

namespace Conformance

/-- A description taken apart. -/
inductive DescriptionTree where
  | leaf (name : Except DescriptionError String)
  | node (name : Except DescriptionError String) (key value : DescriptionTree)

/-- The names in a tree, from the outermost one on. -/
def DescriptionTree.names : DescriptionTree → List (Except DescriptionError String)
  | leaf name => [name]
  | node name key value => name :: (key.names ++ value.names)

namespace Grammar

/-- Takes a description apart, down to `levels` levels of arguments. -/
def tree (g : Grammar) (description : String) : (levels : Nat) → DescriptionTree
  | 0 => .leaf (g.outerName description)
  | levels + 1 =>
    let argument := g.argument description
    if argument.isEmpty then .leaf (g.outerName description)
    else
      let (key, value) := g.keyValue argument
      .node (g.outerName description) (g.tree key levels) (g.tree value levels)

/-- A description reached from another: that description itself, or the key or value type of an
argument, not empty, of one reached before. -/
inductive Reaches (g : Grammar) (d : String) : String → Prop where
  | self : Reaches g d d
  | key {d' : String} (before : Reaches g d d') (given : g.argument d' ≠ "") :
      Reaches g d (g.keyValue (g.argument d')).1
  | value {d' : String} (before : Reaches g d d') (given : g.argument d' ≠ "") :
      Reaches g d (g.keyValue (g.argument d')).2

/-- An argument is shorter than its description, and the parts of an argument are no longer than
it. -/
structure Shrinks (g : Grammar) : Prop where
  argument : ∀ d, g.argument d ≠ "" → (g.argument d).length < d.length
  key : ∀ a, (g.keyValue a).1.length ≤ a.length
  value : ∀ a, (g.keyValue a).2.length ≤ a.length

variable {g : Grammar} {d d' : String}

theorem Reaches.of_key (given : g.argument d ≠ "")
    (h : g.Reaches (g.keyValue (g.argument d)).1 d') : g.Reaches d d' := by
  induction h with
  | self => exact .key .self given
  | key _ given' ih => exact ih.key given'
  | value _ given' ih => exact ih.value given'

theorem Reaches.of_value (given : g.argument d ≠ "")
    (h : g.Reaches (g.keyValue (g.argument d)).2 d') : g.Reaches d d' := by
  induction h with
  | self => exact .value .self given
  | key _ given' ih => exact ih.key given'
  | value _ given' ih => exact ih.value given'

/-- The first step on the way to a description, where there is one. -/
theorem reaches_iff : g.Reaches d d' ↔ d' = d ∨ g.argument d ≠ "" ∧
    (g.Reaches (g.keyValue (g.argument d)).1 d' ∨
      g.Reaches (g.keyValue (g.argument d)).2 d') := by
  constructor
  · intro h
    induction h with
    | self => exact .inl rfl
    | key _ given ih =>
      obtain rfl | ⟨hArgument, hKey | hValue⟩ := ih
      · exact .inr ⟨given, .inl .self⟩
      · exact .inr ⟨hArgument, .inl (hKey.key given)⟩
      · exact .inr ⟨hArgument, .inr (hValue.key given)⟩
    | value _ given ih =>
      obtain rfl | ⟨hArgument, hKey | hValue⟩ := ih
      · exact .inr ⟨given, .inr .self⟩
      · exact .inr ⟨hArgument, .inl (hKey.value given)⟩
      · exact .inr ⟨hArgument, .inr (hValue.value given)⟩
  · rintro (rfl | ⟨given, hKey | hValue⟩)
    · exact .self
    · exact hKey.of_key given
    · exact hValue.of_value given

variable {name : Except DescriptionError String}

/-- Without an argument nothing else is reached, however many levels there are. -/
theorem mem_names_tree_iff_of_argument_eq (h : g.argument d = "") (levels : Nat) :
    name ∈ (g.tree d levels).names ↔ ∃ d', g.Reaches d d' ∧ g.outerName d' = name := by
  have hNames : (g.tree d levels).names = [g.outerName d] := by
    cases levels with
    | zero => rfl
    | succ levels => rw [tree, h, if_pos (by decide), DescriptionTree.names]
  have hReaches (d' : String) : g.Reaches d d' ↔ d' = d :=
    reaches_iff.trans (or_iff_left fun hArgument => hArgument.1 h)
  simp only [hNames, hReaches, List.mem_singleton, exists_eq_left, eq_comm (b := name)]

theorem names_tree_of_argument_ne (h : g.argument d ≠ "") (levels : Nat) :
    (g.tree d (levels + 1)).names = g.outerName d ::
      ((g.tree (g.keyValue (g.argument d)).1 levels).names ++
        (g.tree (g.keyValue (g.argument d)).2 levels).names) := by
  rw [tree, if_neg (by simpa using h), DescriptionTree.names]

/-- With as many levels as the description has characters, the names in a tree are those of the
descriptions that are reached. -/
theorem mem_names_tree_iff (hg : g.Shrinks) {levels : Nat} (h : d.length ≤ levels) :
    name ∈ (g.tree d levels).names ↔ ∃ d', g.Reaches d d' ∧ g.outerName d' = name := by
  induction levels generalizing d with
  | zero =>
    refine mem_names_tree_iff_of_argument_eq (Decidable.byContradiction fun given => ?_) 0
    exact absurd (hg.argument d given) (by omega)
  | succ levels ih =>
    by_cases given : g.argument d = ""
    · exact mem_names_tree_iff_of_argument_eq given _
    · have hArgument := hg.argument d given
      have hKey := hg.key (g.argument d)
      have hValue := hg.value (g.argument d)
      rw [names_tree_of_argument_ne given, List.mem_cons, List.mem_append,
        ih (by omega), ih (by omega)]
      simp only [reaches_iff (d := d), ne_eq, given, not_false_eq_true, true_and, or_and_right,
        exists_or, exists_eq_left, eq_comm (a := name)]

example : (standard.tree "array<int,array<lists>>" 23).names =
    [.ok "array", .ok "int", .ok "array", .error (.missingName ""), .ok "lists"] := rfl

end Grammar

end Conformance
