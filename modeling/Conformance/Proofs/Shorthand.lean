import Conformance.Proofs.FlatUnion
import Conformance.Proofs.NestedGenerics

/-! The shorthand for arrays.  It is read piece by piece, behind the cut of a text: a closing
bracket in front of it has ended a piece, so that it stands alone, and behind another shorthand it
is not read.  So it stands for the array type behind a plain name only.  Elsewhere an object or the
empty array tells the two apart. -/

namespace Conformance

open Description

theorem toList_array (d : String) : ("array<" ++ d ++ ">").toList =
    HeadName.array.text.toList ++ '<' :: (d.toList ++ ['>']) := by
  simp [HeadName.array]

/-- A type without unions, as it is written. -/
inductive WrittenType where
  | bare (name : PlainName)
  | generic (name : PlainName) (value : WrittenType)
  | keyed (name : PlainName) (key value : WrittenType)
  | list (element : WrittenType)

namespace WrittenType

/-- How a type is written. -/
def text : WrittenType → String
  | bare name => name.text
  | generic name value => name.text ++ "<" ++ value.text ++ ">"
  | keyed name key value => name.text ++ "<" ++ key.text ++ "," ++ value.text ++ ">"
  | list element => element.text ++ "[]"

theorem toList_list (t : WrittenType) : t.list.text.toList = t.text.toList ++ ['[', ']'] := by
  simp [text]

theorem text_ne_nil (t : WrittenType) : t.text.toList ≠ [] := by
  cases t with
  | bare name => exact name.toList_ne_nil
  | generic name value => simp [text]
  | keyed name key value => simp [text]
  | list element => simp [text]

theorem close_not_mem_text {t : WrittenType} (h : '<' ∉ t.text.toList) : '>' ∉ t.text.toList := by
  induction t with
  | bare name => exact name.not_mem (by decide)
  | generic name value => exact absurd (by simp [text]) h
  | keyed name key value => exact absurd (by simp [text]) h
  | list element ih =>
    rw [toList_list, List.mem_append, not_or] at h ⊢
    exact ⟨ih h.1, by decide⟩

theorem inSpanName_text {t : WrittenType} (h : '<' ∉ t.text.toList) :
    ∀ c ∈ t.text.toList, inSpanName c = true := by
  induction t with
  | bare name => exact name.inSpanName
  | generic name value => exact absurd (by simp [text]) h
  | keyed name key value => exact absurd (by simp [text]) h
  | list element ih =>
    rw [toList_list] at h ⊢
    exact List.forall_mem_append.mpr
      ⟨ih fun hMem => h (List.mem_append_left _ hMem), inSpanName_mark⟩

theorem alternatives_array {t : WrittenType} (h : '<' ∉ t.text.toList) :
    alternatives ("array<" ++ t.text ++ ">") = ["array<" ++ t.text ++ ">"] := by
  have hPieces := pieces_span HeadName.array.inSpanName HeadName.array.toList_ne_nil
    (close_not_mem_text h) t.text_ne_nil []
  have hShort := expandShorthand_close (HeadName.array.text.toList ++ '<' :: t.text.toList)
  rw [List.append_assoc, List.cons_append] at hShort
  rw [alternatives, toList_array, hPieces, pieces_nil, List.map_singleton, hShort, ← toList_array,
    String.ofList_toList]

/-- Behind another shorthand the shorthand is not read. -/
theorem alternatives_list_list {t : WrittenType} (h : '<' ∉ t.text.toList) :
    alternatives (t.list.text ++ "[]") = [t.list.text ++ "[]"] := by
  have hName : ∀ c ∈ (t.list.text ++ "[]").toList, inSpanName c = true :=
    inSpanName_text (t := t.list.list) (by simp [text, h])
  have hText : (t.list.text ++ "[]").toList = t.list.text.toList ++ ['[', ']'] :=
    t.list.toList_list
  have hMark : '[' ∈ t.list.text.toList := by simp [text]
  rw [alternatives, pieces_of_name hName, addPiece, if_neg (by simp), List.map_singleton, hText,
    expandShorthand_of_mem hMark, ← hText, String.ofList_toList]

end WrittenType

/-! ### Texts that begin with a span -/

/-- The cut of a text that begins with a span.  The text behind the span is cut into spurious spans
and a gap. -/
structure Cutting (s : List Char) where
  name : PlainName
  inner : List Char
  behind : List Char
  gap : List Char
  spans : List (List Char)
  inner_ne_nil : inner ≠ []
  close_not_mem : '>' ∉ inner
  leaves : TypeTree.Leaves behind gap spans
  text : s = name.text.toList ++ '<' :: (inner ++ '>' :: behind)

namespace Cutting

variable {s t : List Char}

/-- A name with an argument that has no bracket inside. -/
def flat (name : PlainName) {inner : List Char} (hInner : inner ≠ []) (hClose : '>' ∉ inner) :
    Cutting (name.text.toList ++ '<' :: (inner ++ ['>'])) where
  name := name
  inner := inner
  behind := []
  gap := []
  spans := []
  inner_ne_nil := hInner
  close_not_mem := hClose
  leaves := .nil
  text := rfl

/-- A text that goes on without a further span. -/
def append (k : Cutting s) (ht : ∀ c ∈ t, inSpanName c = true) : Cutting (s ++ t) where
  name := k.name
  inner := k.inner
  behind := k.behind ++ t
  gap := k.gap ++ t
  spans := k.spans
  inner_ne_nil := k.inner_ne_nil
  close_not_mem := k.close_not_mem
  leaves := k.leaves.append ht
  text := by simp [k.text]

/-- Two texts with a comma in between. -/
def comma (k : Cutting s) (l : Cutting t) : Cutting (s ++ ',' :: t) where
  name := k.name
  inner := k.inner
  behind := k.behind ++ [','] ++ (l.name.text.toList ++ '<' :: (l.inner ++ '>' :: l.behind))
  gap := l.gap
  spans := k.spans ++ (k.gap ++ [','] ++ l.name.text.toList ++ '<' :: (l.inner ++ ['>'])) :: l.spans
  inner_ne_nil := k.inner_ne_nil
  close_not_mem := k.close_not_mem
  leaves := (k.leaves.append (List.forall_mem_singleton.mpr (by decide))).span (by simp)
    l.name.inSpanName l.close_not_mem l.inner_ne_nil l.leaves
  text := by simp [k.text, l.text]

/-- A text at the end of an argument.  The first span begins with the name that has the argument. -/
def within (k : Cutting s) (name : PlainName) {before : List Char} (hBefore : '>' ∉ before) :
    Cutting (name.text.toList ++ '<' :: (before ++ (s ++ ['>']))) where
  name := name
  inner := before ++ (k.name.text.toList ++ '<' :: k.inner)
  behind := k.behind ++ ['>']
  gap := k.gap ++ ['>']
  spans := k.spans
  inner_ne_nil := by simp
  close_not_mem := by simp [hBefore, k.name.not_mem (c := '>') (by decide), k.close_not_mem]
  leaves := k.leaves.append (List.forall_mem_singleton.mpr (by decide))
  text := by simp [k.text]

theorem pieces_eq (k : Cutting s) (h : k.gap ≠ []) :
    pieces s = (k.name.text.toList ++ '<' :: (k.inner ++ ['>'])) :: (k.spans ++ [k.gap]) := by
  conv => lhs; rw [k.text]
  exact k.leaves.pieces_after_span h k.name.inSpanName k.name.toList_ne_nil k.close_not_mem
    k.inner_ne_nil

theorem open_mem (k : Cutting s) : '<' ∈ s := by
  rw [k.text]
  exact List.mem_append_right _ List.mem_cons_self

end Cutting

/-- A type that is written with brackets begins with a span. -/
theorem WrittenType.nonempty_cutting {t : WrittenType} (h : '<' ∈ t.text.toList) :
    Nonempty (Cutting t.text.toList) := by
  induction t with
  | bare name => exact absurd h (name.not_mem (by decide))
  | generic name value ih =>
    have hText : (generic name value).text.toList =
        name.text.toList ++ '<' :: ([] ++ (value.text.toList ++ ['>'])) := by simp [text]
    rw [hText]
    by_cases hValue : '<' ∈ value.text.toList
    · obtain ⟨k⟩ := ih hValue
      exact ⟨k.within name List.not_mem_nil⟩
    · exact ⟨.flat name value.text_ne_nil (close_not_mem_text hValue)⟩
  | keyed name key value ihKey ihValue =>
    by_cases hKey : '<' ∈ key.text.toList
    · -- The bracket that ends the span is one of the key type.
      have hText : (keyed name key value).text.toList =
          name.text.toList ++ '<' ::
            ([] ++ ((key.text.toList ++ ',' :: value.text.toList) ++ ['>'])) := by simp [text]
      rw [hText]
      obtain ⟨k⟩ := ihKey hKey
      by_cases hValue : '<' ∈ value.text.toList
      · obtain ⟨l⟩ := ihValue hValue
        exact ⟨(k.comma l).within name List.not_mem_nil⟩
      · have hRest : ∀ c ∈ ',' :: value.text.toList, inSpanName c = true :=
          List.forall_mem_cons.mpr ⟨by decide, inSpanName_text hValue⟩
        exact ⟨(k.append hRest).within name List.not_mem_nil⟩
    · have hFree : '>' ∉ key.text.toList ++ [','] := by simp [close_not_mem_text hKey]
      have hText : (keyed name key value).text.toList =
          name.text.toList ++ '<' ::
            ((key.text.toList ++ [',']) ++ (value.text.toList ++ ['>'])) := by simp [text]
      rw [hText]
      by_cases hValue : '<' ∈ value.text.toList
      · obtain ⟨k⟩ := ihValue hValue
        exact ⟨k.within name hFree⟩
      · have hInner : key.text.toList ++ [','] ++ value.text.toList ≠ [] := by simp
        have hClose : '>' ∉ key.text.toList ++ [','] ++ value.text.toList := fun hMem =>
          (List.mem_append.mp hMem).elim hFree (close_not_mem_text hValue)
        rw [← List.append_assoc (key.text.toList ++ [','])]
        exact ⟨.flat name hInner hClose⟩
  | list element ih =>
    rw [toList_list] at h ⊢
    obtain ⟨k⟩ := ih ((List.mem_append.mp h).resolve_right (by decide))
    exact ⟨k.append inSpanName_mark⟩

theorem nestingDepth_shorthand_le (d : String) :
    nestingDepth (d ++ "[]") ≤ nestingDepth ("array<" ++ d ++ ">") := by
  have hInfix : d.toList <:+: ("array<" ++ d ++ ">").toList := by
    rw [String.toList_append, String.toList_append]
    exact List.infix_append _ _ _
  have hDepth := deepestFrom_le_of_infix hInfix
  have hLevel : levelAfter 0 d.toList ≤ deepestFrom 0 d.toList := by
    cases hNil : d.toList with
    | nil => exact Nat.le_refl 0
    | cons c rest => exact levelAfter_le_deepestFrom 0 (List.cons_ne_nil c rest)
  have hMark := deepestFrom_le_of_open_not_mem (s := "[]".toList) (by decide)
    (levelAfter 0 d.toList)
  have hParts := deepestFrom_append 0 d.toList "[]".toList
  rw [← String.toList_append] at hParts
  rw [nestingDepth, nestingDepth]
  omega

/-! ### The values that tell the two apart -/

theorem getLast?_classKey {c : Char} (hc : c ≠ '\\') (s : List Char) :
    (classKey (String.ofList (s ++ [c]))).getLast? = some c.toLower := by
  rw [classKey, String.toList_ofList, List.dropWhile_append]
  split <;> simp [hc]

theorem isInstance_iff_sameClass {className name : String} :
    (Value.object ⟨className, []⟩).IsInstance name ↔ sameClass className name = true := by
  simp [Value.IsInstance, Instance.isA, Instance.names]

theorem Builtin.inspect_array_nil (g : Grammar) (argument : String) :
    Builtin.array.inspect g argument (.array []) = .settled .accepted := by
  rw [inspect, inspectArray]
  split <;> rfl

theorem Builtin.decides_inspect_object (b : Builtin) {answer : String → Value → Verdict}
    {argument : String} (o : Instance) :
    ((b.inspect .standard argument (.object o)).resolve answer).Decides
      (b = .any ∨ b = .object) := by
  cases b <;>
    simp [inspect, inspectArray, judgeNumeric, judgeResource, Inspection.resolve, Value.isNumber,
      Verdict.require, Verdict.accepted, Verdict.mismatch]

namespace Checker

variable {policy : Policy}

/-- Under an argument only the types of anything and of objects accept an object. -/
theorem decides_generic_object {name : PlainName} {inner : List Char} (hInner : inner ≠ [])
    (hDepth : deepestFrom 0 (name.text.toList ++ '<' :: (inner ++ ['>'])) ≤ policy.maxDepth)
    (o : Instance) :
    (({ policy } : Checker).check (String.ofList (name.text.toList ++ '<' :: (inner ++ ['>'])))
      (.object o)).Decides
        (Builtin.named name.text = some .any ∨ Builtin.named name.text = some .object) := by
  have hName := name.outerName_generic (inner ++ ['>'])
  rw [← String.toList_ofList (l := name.text.toList ++ _)] at hDepth
  cases hb : Builtin.named name.text with
  | some b =>
    rw [check_of_named hDepth hName hb]
    exact (b.decides_inspect_object o).congr (by simp)
  | none =>
    refine (decides_generic_class hDepth hName hb ?_ _).congr (by simp)
    rw [name.argument_generic]
    exact String.ofList_eq_empty_iff.not.mpr hInner

/-- The shorthand accepts an object only where it is not read, so that it is the name of a class. -/
theorem decides_shorthand_object {element : List Char} (hOpen : '<' ∉ element)
    (h : 1 ≤ policy.maxDepth) (o : Instance) :
    (({ policy } : Checker).check (String.ofList (expandShorthand (element ++ ['[', ']'])))
      (.object o)).Decides
        ((element = [] ∨ '[' ∈ element) ∧
          (Value.object o).IsInstance (String.ofList (element ++ ['[', ']']))) := by
  by_cases hUnread : element = [] ∨ '[' ∈ element
  · have hSame : expandShorthand (element ++ ['[', ']']) = element ++ ['[', ']'] := by
      rcases hUnread with rfl | hMem
      · rfl
      · exact expandShorthand_of_mem hMem
    have hOpen : '<' ∉ element ++ ['[', ']'] := by simp [hOpen]
    have hMem : '[' ∈ element ++ ['[', ']'] := by simp
    rw [hSame]
    exact (decides_stray hOpen hMem (by decide) _).congr (and_iff_right hUnread).symm
  · obtain ⟨hne, hSquare⟩ := not_or.mp hUnread
    have hText : "array<".toList ++ element ++ ['>'] =
        HeadName.array.text.toList ++ '<' :: (element ++ ['>']) := by simp [HeadName.array]
    have hDepth : deepestFrom 0 (HeadName.array.text.toList ++ '<' :: (element ++ ['>'])) ≤
        policy.maxDepth := by
      refine Nat.le_trans ?_ h
      have hElement := deepestFrom_le_of_open_not_mem (s := element ++ ['>']) (by simp [hOpen]) 1
      rw [deepestFrom_append, HeadName.array.unbracketed.levelAfter, deepestFrom]
      have hName := HeadName.array.unbracketed.deepestFrom_le 0
      simp only [level_open, Nat.zero_add]
      omega
    rw [expandShorthand_append hSquare hne, hText]
    refine (decides_generic_object hne hDepth o).congr ?_
    simp [hUnread, HeadName.array, Builtin.named]

/-! ### Validation -/

variable {s : List Char} {d : String}

/-- An object passes for a text that begins with a span by the name in front, or by the gap. -/
theorem validate_object_iff (name : String) (k : Cutting s) (hText : d.toList = s)
    (hDepth : nestingDepth d ≤ policy.maxDepth) (hGap : k.gap ≠ []) {o : Instance} {Q : Prop}
    (hLast : (({ policy } : Checker).check (String.ofList (expandShorthand k.gap))
      (.object o)).Decides Q) :
    ({ policy } : Checker).validate [.required name d] [(name, .object o)] = .ok [] ↔
      (Builtin.named k.name.text = some .any ∨ Builtin.named k.name.text = some .object) ∨ Q := by
  subst hText
  have hPieces := k.pieces_eq hGap
  refine validate_cut_iff name hDepth hPieces k.leaves.spurious ?_ hLast
  rw [← List.cons_append, ← List.append_assoc, expandShorthand_close, List.append_assoc,
    List.cons_append]
  refine decides_generic_object k.inner_ne_nil (Nat.le_trans ?_ hDepth) o
  refine deepestFrom_le_of_infix (infix_of_mem_pieces ?_)
  rw [hPieces]
  exact List.mem_cons_self

/-- As an array with a type in brackets for its values, an object passes by the gap. -/
theorem validate_array_object_iff (name : String) (k : Cutting d.toList)
    (hDepth : nestingDepth ("array<" ++ d ++ ">") ≤ policy.maxDepth) (o : Instance) :
    ({ policy } : Checker).validate [.required name ("array<" ++ d ++ ">")]
        [(name, .object o)] = .ok [] ↔
      (Value.object o).IsInstance (String.ofList (k.gap ++ ['>'])) := by
  have hOpen : '<' ∉ k.gap ++ ['>'] := by simp [k.leaves.open_not_mem]
  have hLast : (({ policy } : Checker).check (String.ofList (expandShorthand (k.gap ++ ['>'])))
      (.object o)).Decides ((Value.object o).IsInstance (String.ofList (k.gap ++ ['>']))) := by
    rw [expandShorthand_close]
    exact decides_stray hOpen (c := '>') (by simp) (by decide) (.object o)
  refine (validate_object_iff name (k.within HeadName.array.toPlainName List.not_mem_nil)
    (toList_array d) hDepth (by simp [Cutting.within]) hLast).trans ?_
  simp [Cutting.within, HeadName.array, Builtin.named]

/-- Behind a type in brackets the shorthand is a part of the gap. -/
theorem validate_shorthand_object_iff (name : String) (k : Cutting d.toList)
    (hDepth : nestingDepth (d ++ "[]") ≤ policy.maxDepth) (o : Instance) :
    ({ policy } : Checker).validate [.required name (d ++ "[]")] [(name, .object o)] = .ok [] ↔
      (Builtin.named k.name.text = some .any ∨ Builtin.named k.name.text = some .object) ∨
        (k.gap = [] ∨ '[' ∈ k.gap) ∧
          (Value.object o).IsInstance (String.ofList (k.gap ++ ['[', ']'])) := by
  have hText : (d ++ "[]").toList = d.toList ++ ['[', ']'] := by simp
  have hOpen : 1 ≤ policy.maxDepth := by
    refine Nat.le_trans (deepestFrom_pos_of_mem ?_) hDepth
    rw [hText]
    exact List.mem_append_left _ k.open_mem
  exact validate_object_iff name (k.append inSpanName_mark) hText hDepth (by simp [Cutting.append])
    (decides_shorthand_object k.leaves.open_not_mem hOpen o)

/-- Behind a type in brackets the shorthand does not stand for the array type: there is an object
that passes one of them only. -/
theorem exists_object_apart (name : String) (k : Cutting d.toList)
    (hDepth : nestingDepth ("array<" ++ d ++ ">") ≤ policy.maxDepth) :
    ∃ v, ¬(({ policy } : Checker).validate [.required name (d ++ "[]")] [(name, v)] = .ok [] ↔
      ({ policy } : Checker).validate [.required name ("array<" ++ d ++ ">")] [(name, v)] =
        .ok []) := by
  have hShort : nestingDepth (d ++ "[]") ≤ policy.maxDepth :=
    Nat.le_trans (nestingDepth_shorthand_le d) hDepth
  have hClose := getLast?_classKey (c := '>') (by decide) k.gap
  by_cases hObject :
    Builtin.named k.name.text = some .any ∨ Builtin.named k.name.text = some .object
  · -- Any object passes by the name in front of the shorthand.
    let o : Instance := ⟨"", []⟩
    refine ⟨.object o, fun hIff => ?_⟩
    have hPasses := (validate_shorthand_object_iff name k hShort o).mpr (.inl hObject)
    have hClass := (validate_array_object_iff name k hDepth o).mp (hIff.mp hPasses)
    rw [isInstance_iff_sameClass, sameClass, decide_eq_true_eq] at hClass
    rw [← hClass] at hClose
    exact absurd hClose (by decide)
  · -- The gaps of the two are the names of classes, and end in different brackets.
    let o : Instance := ⟨String.ofList (k.gap ++ ['>']), []⟩
    refine ⟨.object o, fun hIff => ?_⟩
    have hPasses := (validate_array_object_iff name k hDepth o).mpr ⟨o, rfl, o.isA_className⟩
    have hShorthand := (validate_shorthand_object_iff name k hShort o).mp (hIff.mpr hPasses)
    obtain ⟨-, hClass⟩ := hShorthand.resolve_left hObject
    have hMark := getLast?_classKey (c := ']') (by decide) (k.gap ++ ['['])
    rw [isInstance_iff_sameClass, sameClass, decide_eq_true_eq] at hClass
    rw [List.append_assoc, List.singleton_append, ← hClass, hClose] at hMark
    exact absurd hMark (by decide)

theorem validate_array_nil (name : String) {t : WrittenType} (hOpen : '<' ∉ t.text.toList)
    (hDepth : nestingDepth ("array<" ++ t.text ++ ">") ≤ policy.maxDepth) :
    ({ policy } : Checker).validate [.required name ("array<" ++ t.text ++ ">")]
      [(name, .array [])] = .ok [] := by
  have hName : outerName ("array<" ++ t.text ++ ">") = .ok HeadName.array.text := by
    rw [← String.ofList_toList (s := "array<" ++ t.text ++ ">"), toList_array,
      HeadName.array.outerName_generic]
  refine (validate_sole_iff name (P := True) (t.alternatives_array hOpen) ?_).mpr trivial
  rw [check_of_named hDepth hName (b := .array) rfl, Builtin.inspect_array_nil, Inspection.resolve]
  exact .accepted trivial

theorem not_validate_list_nil (name : String) {t : WrittenType} (hOpen : '<' ∉ t.text.toList) :
    ({ policy } : Checker).validate [.required name (t.list.text ++ "[]")]
      [(name, .array [])] ≠ .ok [] := by
  have hMem : '[' ∈ (t.list.text ++ "[]").toList := by simp
  have hFree : '<' ∉ (t.list.text ++ "[]").toList := by simp [WrittenType.text, hOpen]
  have hDecides : (({ policy } : Checker).check (t.list.text ++ "[]") (.array [])).Decides
      ((Value.array []).IsInstance (t.list.text ++ "[]")) := by
    rw [← String.ofList_toList (s := t.list.text ++ "[]")]
    exact decides_stray hFree hMem (by decide) (.array [])
  intro hPasses
  obtain ⟨o, hObject, -⟩ := (validate_sole_iff name (t.alternatives_list_list hOpen) hDecides).mp
    hPasses
  cases hObject

/-- Behind a type with one pair of brackets the shorthand is the name of a class, and the type stays
what it is. -/
theorem validate_flat_shorthand_iff (name : String) {t : TypeTree} (hFlat : t.height = 1)
    (h : 1 ≤ policy.maxDepth) (v : Value) :
    ({ policy } : Checker).validate [.required name (t.print ++ "[]")] [(name, v)] = .ok [] ↔
      t.Admits v ∨ v.IsInstance "[]" := by
  have hNested : t.height ≠ 0 := by omega
  have hPieces : pieces (t.print ++ "[]").toList = [t.print.toList, ['[', ']']] := by
    have hSpan := pieces_span t.head.inSpanName t.head.toList_ne_nil
      (t.close_not_mem_printArgument (Nat.le_of_eq hFlat)) (t.printArgument_ne_nil hNested)
      ['[', ']']
    rw [pieces_of_name inSpanName_mark] at hSpan
    simpa [t.toList_print hNested, addPiece] using hSpan
  have hDepth : nestingDepth (t.print ++ "[]") ≤ policy.maxDepth := by
    have hMark := deepestFrom_le_of_open_not_mem (s := "[]".toList) (by decide) 0
    rw [nestingDepth, String.toList_append, deepestFrom_append, t.deepestFrom_print,
      t.levelAfter_print]
    omega
  have hNone : ∀ p ∈ ([] : List (List Char)), TypeTree.Spurious p := fun p hp =>
    absurd hp List.not_mem_nil
  have hMark : expandShorthand ['[', ']'] = "[]".toList := by decide
  have hClass : (({ policy } : Checker).check (String.ofList (expandShorthand ['[', ']']))
      v).Decides (v.IsInstance (String.ofList "[]".toList)) := by
    rw [hMark]
    exact decides_stray (c := '[') (by decide) (by decide) (by decide) v
  rw [String.ofList_toList] at hClass
  refine validate_cut_iff name hDepth hPieces hNone ?_ hClass
  rw [expandShorthand_of_not_mem t.square_not_mem_print, String.ofList_toList]
  exact decides_print t (hFlat ▸ h) v

/-- The shorthand stands for the array type just where a plain name is in front of it. -/
theorem validate_shorthand_iff (name : String) (t : WrittenType)
    (h : nestingDepth ("array<" ++ t.text ++ ">") ≤ policy.maxDepth) :
    (∀ v, ({ policy } : Checker).validate [.required name (t.text ++ "[]")] [(name, v)] = .ok [] ↔
        ({ policy } : Checker).validate [.required name ("array<" ++ t.text ++ ">")] [(name, v)] =
          .ok []) ↔
      ∃ plain, t = .bare plain := by
  constructor
  · intro hAll
    by_cases hOpen : '<' ∈ t.text.toList
    · obtain ⟨k⟩ := WrittenType.nonempty_cutting hOpen
      obtain ⟨v, hApart⟩ := exists_object_apart name k h
      exact absurd (hAll v) hApart
    · cases t with
      | bare plain => exact ⟨plain, rfl⟩
      | generic head value => exact absurd (by simp [WrittenType.text]) hOpen
      | keyed head key value => exact absurd (by simp [WrittenType.text]) hOpen
      | list element =>
        have hElement : '<' ∉ element.text.toList := fun hMem =>
          hOpen (by simp [WrittenType.text, hMem])
        exact absurd ((hAll (.array [])).mpr (validate_array_nil name hOpen h))
          (not_validate_list_nil name hElement)
  · rintro ⟨plain, rfl⟩ v
    have hAlternatives : alternatives ("array<" ++ plain.text ++ ">") =
        alternatives (plain.text ++ "[]") := by
      rw [plain.alternatives_shorthand]
      exact WrittenType.alternatives_array (t := .bare plain) (plain.not_mem (by decide))
    have hShort := passes_iff (c := { policy }) (p := .required name (plain.text ++ "[]")) (v := v)
    have hLong := passes_iff (c := { policy })
      (p := .required name ("array<" ++ plain.text ++ ">")) (v := v)
    have hSame : ({ policy } : Checker).alternativesOf (.required name (plain.text ++ "[]")) =
        ({ policy } : Checker).alternativesOf (.required name ("array<" ++ plain.text ++ ">")) :=
      hAlternatives.symm
    rw [hSame] at hShort
    exact hShort.trans hLong.symm

/-- The type of lists of integers, written with the shorthand. -/
def integerList : WrittenType := .list (.bare ⟨"integer", by decide, by decide⟩)

theorem validate_shorthand_iff_integerList :
    ¬∀ v, ({} : Checker).validate [.required "p" "integer[][]"] [("p", v)] = .ok [] ↔
      ({} : Checker).validate [.required "p" "array<integer[]>"] [("p", v)] = .ok [] := by
  intro hAll
  obtain ⟨plain, hPlain⟩ := (validate_shorthand_iff "p" integerList (by decide)).mp hAll
  cases hPlain

/-- With the shorthand, lists of lists of integers do not take the empty list, and lists of arrays
of integers take a list of integers; with the array type it is the other way round. -/
theorem validate_integerList_nil :
    integerList.text = "integer[]" ∧
      ({} : Checker).validate [.required "p" "integer[][]"] [("p", .list [])] ≠ .ok [] ∧
      ({} : Checker).validate [.required "p" "array<integer[]>"] [("p", .list [])] = .ok [] ∧
      ({} : Checker).validate [.required "p" "array<integer>[]"] [("p", .list [.integer 1])] = .ok [] ∧
      ({} : Checker).validate [.required "p" "array<array<integer>>"] [("p", .list [.integer 1])] ≠
        .ok [] := by
  decide +kernel

end Checker

end Conformance
