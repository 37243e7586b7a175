import Conformance.Proofs.Pieces
import Conformance.Text.NumericText
import Conformance.ValueType.Builtin

/-! Types as trees: a name, a name with the type of the values or with the types of the keys and
values, or resources of some kinds.  `print` writes a tree as a description, `Admits` says which
values conform to it, by recursion on the tree and without reading any text.  Taking a printed tree
apart gives back the parts that it was made of. -/

namespace Conformance

/-- Whether a character has no meaning of its own in descriptions. -/
def isPlain (c : Char) : Bool := c ∉ ['<', '>', ',', '|', '[', ']']

/-- A text that can stand for a type or a kind of resources. -/
structure PlainName where
  text : String
  nonempty : text ≠ ""
  plain : text.toList.all isPlain = true
deriving DecidableEq

/-- The name of the type of resources. -/
def PlainName.resource : PlainName := ⟨"resource", by decide, by decide⟩

/-- A name that can take any generic argument. -/
structure HeadName extends PlainName where
  ne_resource : text ≠ "resource"
deriving DecidableEq

/-- The name of the type of arrays. -/
def HeadName.array : HeadName := ⟨⟨"array", by decide, by decide⟩, by decide⟩

/-- A type. -/
inductive TypeTree where
  | bare (name : PlainName)
  | generic (name : HeadName) (value : TypeTree)
  | keyed (name : HeadName) (key value : TypeTree)
  | resource (kind : PlainName) (more : List PlainName)

/-! ### Values that conform -/

/-- The built-in type that a name stands for. -/
def Builtin.named : String → Option Builtin
  | "any" | "mixed" => some .any
  | "array" => some .array
  | "bool" | "boolean" => some .bool
  | "callable" => some .callable
  | "float" | "double" => some .float
  | "integer" | "int" => some .integer
  | "number" => some .number
  | "numeric" => some .numeric
  | "object" => some .object
  | "resource" => some .resource
  | "string" => some .string
  | _ => none

/-- What a built-in type without an argument says of a value. -/
def Builtin.Holds : Builtin → Value → Prop
  | any, _ => True
  | array, v => ∃ entries, v = .array entries
  | bool, v => ∃ b, v = .bool b
  | callable, v => ∃ name, v = .callable name
  | float, v => ∃ x, v = .float x
  | integer, v => ∃ i, v = .integer i
  | number, v => (∃ i, v = .integer i) ∨ ∃ x, v = .float x
  | numeric, v => (∃ i, v = .integer i) ∨ (∃ x, v = .float x) ∨
      ∃ s, v = .string s ∧ Text.isNumeric s = true
  | object, v => ∃ o, v = .object o
  | resource, v => ∃ kind id, v = .resource kind id
  | string, v => ∃ s, v = .string s

/-- An object of a class or of one that extends or implements it. -/
def Value.IsInstance (v : Value) (className : String) : Prop :=
  ∃ o, v = .object o ∧ o.isA className = true

namespace TypeTree

/-- The values that conform to a type.  The array type looks into the entries; the other built-in
types ignore an argument.  Any other name is that of a class, and a class takes no argument. -/
def Admits : TypeTree → Value → Prop
  | bare name, v =>
    match Builtin.named name.text with
    | some b => b.Holds v
    | none => v.IsInstance name.text
  | generic name value, v =>
    match Builtin.named name.text with
    | some .array => ∃ entries, v = .array entries ∧ ∀ e ∈ entries, value.Admits e.2
    | some b => b.Holds v
    | none => False
  | keyed name key value, v =>
    match Builtin.named name.text with
    | some .array => ∃ entries, v = .array entries ∧
        ∀ e ∈ entries, key.Admits (.ofKey e.1) ∧ value.Admits e.2
    | some b => b.Holds v
    | none => False
  | resource kind more, v =>
    ∃ received id, v = .resource received id ∧ received ∈ (kind :: more).map PlainName.text

/-- The number of brackets inside one another. -/
def height : TypeTree → Nat
  | bare _ => 0
  | generic _ value => value.height + 1
  | keyed _ key value => max key.height value.height + 1
  | resource _ _ => 1

/-! ### Descriptions of types -/

/-- The name in front. -/
def head : TypeTree → PlainName
  | bare name => name
  | generic name _ => name.toPlainName
  | keyed name _ _ => name.toPlainName
  | resource _ _ => .resource

/-- The kinds of resources, as they are written between the brackets. -/
def printKinds (kind : PlainName) (more : List PlainName) : String :=
  "|".intercalate ((kind :: more).map PlainName.text)

/-- The description of a type. -/
def print : TypeTree → String
  | bare name => name.text
  | generic name value => name.text ++ "<" ++ value.print ++ ">"
  | keyed name key value => name.text ++ "<" ++ key.print ++ "," ++ value.print ++ ">"
  | resource kind more => PlainName.resource.text ++ "<" ++ printKinds kind more ++ ">"

/-- What stands between the brackets of a type, nothing where there are none. -/
def printArgument : TypeTree → String
  | bare _ => ""
  | generic _ value => value.print
  | keyed _ key value => key.print ++ "," ++ value.print
  | resource kind more => printKinds kind more

end TypeTree

/-! ### Plain text -/

theorem isPlain_iff {c : Char} :
    isPlain c = true ↔ c ≠ '<' ∧ c ≠ '>' ∧ c ≠ ',' ∧ c ≠ '|' ∧ c ≠ '[' ∧ c ≠ ']' := by
  simp [isPlain]

namespace Description

/-- A text of characters that have no meaning of their own. -/
def Plain (s : List Char) : Prop := ∀ c ∈ s, isPlain c = true

variable {s t : List Char}

theorem plain_append : Plain (s ++ t) ↔ Plain s ∧ Plain t := List.forall_mem_append

theorem Plain.not_mem (h : Plain s) {c : Char} (hc : isPlain c = false) : c ∉ s := by
  intro hMem
  have := h c hMem
  rw [hc] at this
  exact absurd this (by decide)

theorem Plain.unbracketed (h : Plain s) : Unbracketed s := fun c hc =>
  have hPlain := isPlain_iff.mp (h c hc)
  ⟨hPlain.1, hPlain.2.1⟩

theorem Plain.inSpanName (h : Plain s) : ∀ c ∈ s, inSpanName c = true := fun c hc =>
  have hPlain := isPlain_iff.mp (h c hc)
  by simp [Description.inSpanName, hPlain.1, hPlain.2.2.2.1]

end Description

namespace PlainName

variable (name : PlainName)

theorem plain_text : Description.Plain name.text.toList := List.all_eq_true.mp name.plain

theorem isPlain_of_mem {c : Char} (h : c ∈ name.text.toList) : isPlain c = true :=
  name.plain_text c h

theorem not_mem {c : Char} (h : isPlain c = false) : c ∉ name.text.toList :=
  name.plain_text.not_mem h

theorem toList_ne_nil : name.text.toList ≠ [] := fun h =>
  name.nonempty (String.toList_eq_nil_iff.mp h)

theorem unbracketed : Description.Unbracketed name.text.toList := name.plain_text.unbracketed

theorem inSpanName : ∀ c ∈ name.text.toList, Description.inSpanName c = true :=
  name.plain_text.inSpanName

theorem alternatives_text : Description.alternatives name.text = [name.text] := by
  rw [Description.alternatives_of_not_mem (name.not_mem (by decide)),
    Description.pieces_of_name name.inSpanName]
  simp [Description.addPiece, name.nonempty]

end PlainName

open Description

theorem Description.Unbracketed.deepestFrom {s : List Char} (h : Unbracketed s) (hs : s ≠ [])
    (depth : Nat) : deepestFrom depth s = depth := by
  refine Nat.le_antisymm (h.deepestFrom_le depth) ?_
  have := levelAfter_le_deepestFrom depth hs
  rwa [h.levelAfter] at this

/-! ### The parts of a printed type -/

namespace TypeTree

theorem mem_printKinds {kind : PlainName} {more : List PlainName} {c : Char}
    (h : c ∈ (printKinds kind more).toList) : c = '|' ∨ isPlain c = true := by
  induction more generalizing kind with
  | nil =>
    simp only [printKinds, List.map_cons, List.map_nil, String.intercalate_singleton] at h
    exact .inr (kind.isPlain_of_mem h)
  | cons next rest ih =>
    simp only [printKinds, List.map_cons, String.intercalate_cons_cons, String.toList_append,
      List.mem_append] at h ih
    rcases h with (h | h) | h
    · exact .inr (kind.isPlain_of_mem h)
    · exact .inl (by simpa using h)
    · exact ih h

theorem printKinds_unbracketed (kind : PlainName) (more : List PlainName) :
    Unbracketed (printKinds kind more).toList := by
  intro c hc
  rcases mem_printKinds hc with rfl | h
  · decide
  · exact ⟨(isPlain_iff.mp h).1, (isPlain_iff.mp h).2.1⟩

theorem comma_not_mem_printKinds (kind : PlainName) (more : List PlainName) :
    ',' ∉ (printKinds kind more).toList := by
  intro hc
  rcases mem_printKinds hc with h | h
  · exact absurd h (by decide)
  · exact absurd h (by decide)

theorem printKinds_ne_nil (kind : PlainName) (more : List PlainName) :
    (printKinds kind more).toList ≠ [] := by
  cases more with
  | nil => simpa [printKinds] using kind.nonempty
  | cons next rest => simp [printKinds]

theorem alternatives_printKinds (kind : PlainName) (more : List PlainName) :
    alternatives (printKinds kind more) = (kind :: more).map PlainName.text := by
  have hClosing : ∀ t ∈ (kind :: more).map PlainName.text, Closing t.toList := by
    intro t ht
    obtain ⟨name, -, rfl⟩ := List.mem_map.mp ht
    exact closing_of_not_mem (name.not_mem (by decide))
  rw [printKinds, alternatives_intercalate hClosing, List.flatMap_map]
  simp only [PlainName.alternatives_text, ← List.map_eq_flatMap]

theorem toList_print {t : TypeTree} (h : t.height ≠ 0) :
    t.print.toList = t.head.text.toList ++ '<' :: (t.printArgument.toList ++ ['>']) := by
  cases t with
  | bare name => exact absurd rfl h
  | generic name value => simp [print, head, printArgument]
  | keyed name key value => simp [print, head, printArgument]
  | resource kind more => simp [print, head, printArgument]

theorem print_ne_nil (t : TypeTree) : t.print.toList ≠ [] := by
  cases t with
  | bare name => exact name.toList_ne_nil
  | generic name value => simp [print]
  | keyed name key value => simp [print]
  | resource kind more => simp [print]

theorem print_ne_empty (t : TypeTree) : t.print ≠ "" := fun h =>
  t.print_ne_nil (by rw [h]; rfl)

theorem eq_bare_of_height {t : TypeTree} (h : t.height = 0) : t = bare t.head := by
  cases t with
  | bare name => rfl
  | generic name value => exact absurd h (Nat.succ_ne_zero _)
  | keyed name key value => exact absurd h (Nat.succ_ne_zero _)
  | resource kind more => exact absurd h Nat.one_ne_zero

theorem square_not_mem_print (t : TypeTree) : '[' ∉ t.print.toList := by
  induction t with
  | bare name => exact name.not_mem (by decide)
  | generic name value ih => simp [print, name.not_mem (c := '[') (by decide), ih]
  | keyed name key value ihKey ihValue =>
    simp [print, name.not_mem (c := '[') (by decide), ihKey, ihValue]
  | resource kind more =>
    have hKinds : '[' ∉ (printKinds kind more).toList := fun hMem =>
      (mem_printKinds hMem).elim (by decide) (by decide)
    simp [print, PlainName.resource.not_mem (c := '[') (by decide), hKinds]

/-- Brackets match in a printed type. -/
@[simp] theorem levelAfter_print (t : TypeTree) (depth : Nat) :
    levelAfter depth t.print.toList = depth := by
  induction t generalizing depth with
  | bare name => exact name.unbracketed.levelAfter depth
  | generic name value ih =>
    simp [print, name.unbracketed.levelAfter, ih]
  | keyed name key value ihKey ihValue =>
    simp [print, name.unbracketed.levelAfter, ihKey, ihValue]
  | resource kind more =>
    simp [print, PlainName.resource.unbracketed.levelAfter,
      (printKinds_unbracketed kind more).levelAfter]

/-- A printed type reaches as deep as its height, from the depth at which it is met. -/
@[simp] theorem deepestFrom_print (t : TypeTree) (depth : Nat) :
    deepestFrom depth t.print.toList = depth + t.height := by
  induction t generalizing depth with
  | bare name => exact name.unbracketed.deepestFrom name.toList_ne_nil depth
  | generic name value ih =>
    simp [print, deepestFrom_append, deepestFrom, height,
      name.unbracketed.levelAfter, name.unbracketed.deepestFrom name.toList_ne_nil, ih]
    omega
  | keyed name key value ihKey ihValue =>
    simp [print, deepestFrom_append, deepestFrom, height,
      name.unbracketed.levelAfter, name.unbracketed.deepestFrom name.toList_ne_nil, ihKey, ihValue]
    omega
  | resource kind more =>
    simp [print, deepestFrom_append, deepestFrom, height,
      PlainName.resource.unbracketed.levelAfter,
      PlainName.resource.unbracketed.deepestFrom PlainName.resource.toList_ne_nil,
      (printKinds_unbracketed kind more).levelAfter,
      (printKinds_unbracketed kind more).deepestFrom (printKinds_ne_nil kind more)]

@[simp] theorem cutAtComma_print (t : TypeTree) (depth : Nat) :
    cutAtComma depth t.print.toList = none := by
  induction t generalizing depth with
  | bare name => exact cutAtComma_of_not_mem (name.not_mem (by decide)) depth
  | generic name value ih =>
    simp [print, cutAtComma_append, cutAtComma, ih,
      cutAtComma_of_not_mem (name.not_mem (c := ',') (by decide))]
  | keyed name key value ihKey ihValue =>
    simp [print, cutAtComma_append, cutAtComma, ihKey, ihValue,
      name.unbracketed.levelAfter, cutAtComma_of_not_mem (name.not_mem (c := ',') (by decide))]
  | resource kind more =>
    simp [print, cutAtComma_append, cutAtComma,
      cutAtComma_of_not_mem (PlainName.resource.not_mem (c := ',') (by decide)),
      cutAtComma_of_not_mem (comma_not_mem_printKinds kind more)]

theorem nestingDepth_print (t : TypeTree) : nestingDepth t.print = t.height := by
  rw [nestingDepth, deepestFrom_print, Nat.zero_add]

theorem outerName_print (t : TypeTree) : outerName t.print = .ok t.head.text := by
  have hName : nameChars t.print.toList = t.head.text.toList := by
    by_cases h : t.height = 0
    · cases t with
      | bare name => exact nameChars_of_not_mem (name.not_mem (by decide))
      | _ => exact absurd h (Nat.succ_ne_zero _)
    · rw [toList_print h]
      exact nameChars_append (t.head.not_mem (by decide)) _
  rw [outerName_of_nameChars hName t.head.toList_ne_nil, String.ofList_toList]

theorem argument_print (t : TypeTree) : argument t.print = t.printArgument := by
  by_cases h : t.height = 0
  · cases t with
    | bare name => exact argument_of_not_mem (name.not_mem (by decide))
    | _ => exact absurd h (Nat.succ_ne_zero _)
  · rw [argument, toList_print h, argumentChars_append (t.head.not_mem (by decide)),
      String.ofList_toList]

theorem keyValue_print (t : TypeTree) : keyValue t.print = ("", t.print) :=
  keyValue_of_no_cut (t.cutAtComma_print 0)

theorem keyValue_print_pair (key value : TypeTree) :
    keyValue (key.print ++ "," ++ value.print) = (key.print, value.print) := by
  have hCut : cutAtComma 0 (key.print ++ "," ++ value.print).toList =
      some (key.print.toList, value.print.toList) := by
    simpa using cutAtComma_key (key.cutAtComma_print 0) (key.levelAfter_print 0) value.print.toList
  rw [keyValue_of_cut hCut, String.ofList_toList, String.ofList_toList]

theorem keyValue_argument_generic (name : HeadName) (value : TypeTree) :
    keyValue (argument (generic name value).print) = ("", value.print) := by
  rw [argument_print]
  exact value.keyValue_print

theorem keyValue_argument_keyed (name : HeadName) (key value : TypeTree) :
    keyValue (argument (keyed name key value).print) = (key.print, value.print) := by
  rw [argument_print]
  exact keyValue_print_pair key value

/-! ### A type without nested brackets is one alternative -/

theorem close_not_mem_printArgument {t : TypeTree} (h : t.height ≤ 1) :
    '>' ∉ t.printArgument.toList := by
  have hBare : ∀ s : TypeTree, s.height = 0 → '>' ∉ s.print.toList := by
    intro s hs
    rw [eq_bare_of_height hs]
    exact s.head.not_mem (by decide)
  cases t with
  | bare name => exact List.not_mem_nil
  | generic name value => exact hBare value (Nat.le_zero.mp (Nat.le_of_succ_le_succ h))
  | keyed name key value =>
    rw [height] at h
    simp [printArgument, hBare key (by omega), hBare value (by omega)]
  | resource kind more => exact fun hMem => (printKinds_unbracketed kind more _ hMem).2 rfl

theorem printArgument_ne_nil {t : TypeTree} (h : t.height ≠ 0) : t.printArgument.toList ≠ [] := by
  cases t with
  | bare name => exact absurd rfl h
  | generic name value => exact value.print_ne_nil
  | keyed name key value => simp [printArgument]
  | resource kind more => exact printKinds_ne_nil kind more

theorem argument_print_ne_empty {t : TypeTree} (h : t.height ≠ 0) : argument t.print ≠ "" := by
  rw [argument_print]
  exact fun hEmpty => printArgument_ne_nil h (String.toList_eq_nil_iff.mpr hEmpty)

theorem alternatives_print {t : TypeTree} (h : t.height ≤ 1) :
    alternatives t.print = [t.print] := by
  by_cases hBare : t.height = 0
  · rw [eq_bare_of_height hBare]
    exact t.head.alternatives_text
  · have hPieces := pieces_span t.head.inSpanName t.head.toList_ne_nil
      (close_not_mem_printArgument h) (printArgument_ne_nil hBare) []
    rw [alternatives_of_not_mem t.square_not_mem_print, toList_print hBare, hPieces,
      ← toList_print hBare]
    simp

theorem closing_print (t : TypeTree) : Closing t.print.toList := by
  by_cases hBare : t.height = 0
  · rw [eq_bare_of_height hBare]
    exact closing_of_not_mem (t.head.not_mem (by decide))
  · rw [toList_print hBare, ← List.cons_append, ← List.append_assoc]
    exact closing_of_end _

end TypeTree

end Conformance
