import Conformance.Proofs.Dispatch
import Conformance.Proofs.OneArgument

/-! Nested generic types as alternatives.  A span ends at the first closing bracket, so a type with
brackets inside its brackets is not one alternative but several: the first is the type with all
inner arguments cut off, the last is what is left of the closing brackets, and nothing conforms to
those in between.  What is left is read as the name of a class. -/

namespace Conformance

open Description

namespace TypeTree

/-- The text of a type up to its first closing bracket. -/
def opening : TypeTree → List Char
  | bare name => name.text.toList
  | generic name value => name.text.toList ++ '<' :: value.opening
  | keyed name key value =>
    name.text.toList ++ '<' ::
      (if key.height = 0 then key.opening ++ ',' :: value.opening else key.opening)
  | resource kind more => PlainName.resource.text.toList ++ '<' :: (printKinds kind more).toList

/-- The text of a type behind its first closing bracket. -/
def behind : TypeTree → List Char
  | bare _ => []
  | generic _ value => if value.height = 0 then [] else value.behind ++ ['>']
  | keyed _ key value =>
    if key.height = 0 then if value.height = 0 then [] else value.behind ++ ['>']
    else key.behind ++ ',' :: (value.print.toList ++ ['>'])
  | resource _ _ => []

/-- The text of a type behind all its spans. -/
def residue : TypeTree → List Char
  | bare _ => []
  | generic _ value => if value.height = 0 then [] else value.residue ++ ['>']
  | keyed _ key value =>
    if value.height = 0 then
      if key.height = 0 then [] else key.residue ++ ',' :: (value.print.toList ++ ['>'])
    else value.residue ++ ['>']
  | resource _ _ => []

/-- The type that the first span of a type stands for. -/
def clipped : TypeTree → TypeTree
  | bare name => bare name
  | generic name value => generic name (bare value.head)
  | keyed name key value =>
    if key.height = 0 then keyed name key (bare value.head) else generic name (bare key.head)
  | resource kind more => resource kind more

/-! ### The text up to the first closing bracket -/

theorem opening_of_height {t : TypeTree} (h : t.height = 0) : t.opening = t.print.toList := by
  rw [eq_bare_of_height h]
  rfl

theorem close_not_mem_opening (t : TypeTree) : '>' ∉ t.opening := by
  induction t with
  | bare name => exact name.not_mem (by decide)
  | generic name value ih => simp [opening, name.not_mem (c := '>') (by decide), ih]
  | keyed name key value ihKey ihValue =>
    rw [opening]
    split <;> simp [name.not_mem (c := '>') (by decide), ihKey, ihValue]
  | resource kind more =>
    have hKinds : '>' ∉ (printKinds kind more).toList := fun hMem =>
      (printKinds_unbracketed kind more _ hMem).2 rfl
    simp [opening, PlainName.resource.not_mem (c := '>') (by decide), hKinds]

theorem opening_ne_nil (t : TypeTree) : t.opening ≠ [] := by
  cases t with
  | bare name => exact name.toList_ne_nil
  | generic name value => simp [opening]
  | keyed name key value => simp [opening]
  | resource kind more => simp [opening]

theorem exists_opening {t : TypeTree} (h : t.height ≠ 0) :
    ∃ inner, t.opening = t.head.text.toList ++ '<' :: inner ∧ inner ≠ [] ∧ '>' ∉ inner := by
  suffices hInner : ∃ inner, t.opening = t.head.text.toList ++ '<' :: inner ∧ inner ≠ [] by
    obtain ⟨inner, hOpening, hne⟩ := hInner
    refine ⟨inner, hOpening, hne, fun hMem => t.close_not_mem_opening ?_⟩
    rw [hOpening]
    exact List.mem_append_right _ (List.mem_cons_of_mem _ hMem)
  cases t with
  | bare name => exact absurd rfl h
  | generic name value => exact ⟨_, rfl, value.opening_ne_nil⟩
  | keyed name key value =>
    refine ⟨_, rfl, ?_⟩
    split
    · simp
    · exact key.opening_ne_nil
  | resource kind more => exact ⟨_, rfl, printKinds_ne_nil kind more⟩

theorem nameChars_opening (t : TypeTree) : nameChars t.opening = t.head.text.toList := by
  by_cases h : t.height = 0
  · rw [eq_bare_of_height h]
    exact nameChars_of_not_mem (t.head.not_mem (by decide))
  · obtain ⟨inner, hOpening, -, -⟩ := exists_opening h
    rw [hOpening, nameChars_append (t.head.not_mem (by decide))]

theorem cutAtComma_opening (t : TypeTree) (depth : Nat) : cutAtComma depth t.opening = none := by
  induction t generalizing depth with
  | bare name => exact cutAtComma_of_not_mem (name.not_mem (by decide)) depth
  | generic name value ih =>
    simp [opening, cutAtComma_append, cutAtComma, ih,
      cutAtComma_of_not_mem (name.not_mem (c := ',') (by decide))]
  | keyed name key value ihKey ihValue =>
    rw [opening]
    split
    · next hBare =>
      simp [cutAtComma_append, cutAtComma, opening_of_height hBare, ihValue,
        name.unbracketed.levelAfter, cutAtComma_of_not_mem (name.not_mem (c := ',') (by decide))]
    · simp [cutAtComma_append, cutAtComma, ihKey,
        cutAtComma_of_not_mem (name.not_mem (c := ',') (by decide))]
  | resource kind more =>
    simp [opening, cutAtComma_append, cutAtComma,
      cutAtComma_of_not_mem (PlainName.resource.not_mem (c := ',') (by decide)),
      cutAtComma_of_not_mem (comma_not_mem_printKinds kind more)]

theorem toList_print_opening {t : TypeTree} (h : t.height ≠ 0) :
    t.print.toList = t.opening ++ '>' :: t.behind := by
  induction t with
  | bare name => exact absurd rfl h
  | generic name value ih =>
    rw [opening, behind]
    split
    · next hBare => simp [print, opening_of_height hBare]
    · next hNested => simp [print, ih hNested]
  | keyed name key value ihKey ihValue =>
    rw [opening, behind]
    split
    · next hBare =>
      split
      · next hFlat => simp [print, opening_of_height hBare, opening_of_height hFlat]
      · next hNested => simp [print, opening_of_height hBare, ihValue hNested]
    · next hNested => simp [print, ihKey hNested]
  | resource kind more => simp [print, opening, behind]

/-! ### The pieces of a printed type -/

/-- A text of this form is a span that nothing conforms to: no type has such a name, and a class
takes no argument. -/
def Spurious (p : List Char) : Prop :=
  ∃ name inner, p = name ++ '<' :: (inner ++ ['>']) ∧ '<' ∉ name ∧ ',' ∈ name ∧ inner ≠ []

/-- A text of which spurious spans are cut off, up to a gap, which goes on with the text behind. -/
structure Leaves (s gap : List Char) (spans : List (List Char)) : Prop where
  pieces_append : ∀ after, pieces (s ++ after) = spans ++ pieces (gap ++ after)
  spurious : ∀ p ∈ spans, Spurious p
  inSpanName : ∀ c ∈ gap, Description.inSpanName c = true

namespace Leaves

variable {s gap : List Char} {spans : List (List Char)}

theorem nil : Leaves [] [] [] where
  pieces_append _ := rfl
  spurious _ hp := absurd hp List.not_mem_nil
  inSpanName _ hc := absurd hc List.not_mem_nil

theorem append (h : Leaves s gap spans) {t : List Char}
    (ht : ∀ c ∈ t, Description.inSpanName c = true) : Leaves (s ++ t) (gap ++ t) spans where
  pieces_append after := by rw [List.append_assoc, h.pieces_append, List.append_assoc]
  spurious := h.spurious
  inSpanName := List.forall_mem_append.mpr ⟨h.inSpanName, ht⟩

/-- A gap with a comma joins the name of the span behind it, and makes the span spurious. -/
theorem span (h : Leaves s gap spans) (hComma : ',' ∈ gap) {name inner : List Char}
    (hName : ∀ c ∈ name, Description.inSpanName c = true) (hClose : '>' ∉ inner)
    (hInner : inner ≠ []) {t last : List Char} {more : List (List Char)} (ht : Leaves t last more) :
    Leaves (s ++ (name ++ '<' :: (inner ++ '>' :: t))) last
      (spans ++ (gap ++ name ++ '<' :: (inner ++ ['>'])) :: more) where
  pieces_append after := by
    have hSpan := pieces_span (List.forall_mem_append.mpr ⟨h.inSpanName, hName⟩)
      (List.append_ne_nil_of_left_ne_nil (List.ne_nil_of_mem hComma) name) hClose hInner
      (t ++ after)
    have hRest := h.pieces_append (name ++ '<' :: (inner ++ '>' :: (t ++ after)))
    rw [← List.append_assoc gap, hSpan, ht.pieces_append] at hRest
    simpa using hRest
  spurious := by
    refine List.forall_mem_append.mpr ⟨h.spurious, List.forall_mem_cons.mpr ⟨?_, ht.spurious⟩⟩
    refine ⟨gap ++ name, inner, rfl, fun hMem => ?_, List.mem_append_left _ hComma, hInner⟩
    rcases List.mem_append.mp hMem with hMem | hMem
    · exact absurd (h.inSpanName _ hMem) (by decide)
    · exact absurd (hName _ hMem) (by decide)
  inSpanName := ht.inSpanName

theorem open_not_mem (h : Leaves s gap spans) : '<' ∉ gap := fun hMem =>
  absurd (h.inSpanName _ hMem) (by decide)

/-- Behind a first span nothing but spurious spans and the gap is left. -/
theorem pieces_after_span (h : Leaves s gap spans) (hGap : gap ≠ []) {name inner : List Char}
    (hName : ∀ c ∈ name, Description.inSpanName c = true) (hne : name ≠ []) (hClose : '>' ∉ inner)
    (hInner : inner ≠ []) :
    pieces (name ++ '<' :: (inner ++ '>' :: s)) =
      (name ++ '<' :: (inner ++ ['>'])) :: (spans ++ [gap]) := by
  have hRest := h.pieces_append []
  rw [List.append_nil, List.append_nil, pieces_of_name h.inSpanName] at hRest
  rw [pieces_span hName hne hClose hInner, hRest]
  simp [addPiece, hGap]

end Leaves

theorem close_mem_residue {t : TypeTree} (h : 2 ≤ t.height) : '>' ∈ t.residue := by
  cases t with
  | bare name => exact absurd h (by simp [height])
  | generic name value =>
    have hNested : value.height ≠ 0 := by
      rw [height] at h
      omega
    simp [residue, hNested]
  | keyed name key value =>
    rw [height] at h
    by_cases hFlat : value.height = 0
    · have hKey : key.height ≠ 0 := by omega
      simp [residue, hFlat, hKey]
    · simp [residue, hFlat]
  | resource kind more => exact absurd h (by simp [height])

/-- Behind the first closing bracket a type is cut into spurious spans and its residue. -/
theorem exists_leaves (t : TypeTree) : ∃ spans, Leaves t.behind t.residue spans := by
  have hClose : ∀ c ∈ ['>'], inSpanName c = true := List.forall_mem_singleton.mpr (by decide)
  have hComma : ∀ c ∈ [','], inSpanName c = true := List.forall_mem_singleton.mpr (by decide)
  induction t with
  | bare name => exact ⟨[], .nil⟩
  | generic name value ih =>
    rw [behind, residue]
    split
    · exact ⟨[], .nil⟩
    · obtain ⟨spans, hSpans⟩ := ih
      exact ⟨spans, hSpans.append hClose⟩
  | keyed name key value ihKey ihValue =>
    rw [behind, residue]
    obtain ⟨spans, hSpans⟩ := ihKey
    obtain ⟨more, hMore⟩ := ihValue
    by_cases hKey : key.height = 0
    · rw [if_pos hKey, if_pos hKey]
      split
      · exact ⟨[], .nil⟩
      · exact ⟨more, hMore.append hClose⟩
    · rw [if_neg hKey, if_neg hKey]
      split
      · next hFlat =>
        have hRest : ∀ c ∈ ',' :: (value.print.toList ++ ['>']), inSpanName c = true := by
          rw [eq_bare_of_height hFlat]
          exact List.forall_mem_append.mpr
            ⟨hComma, List.forall_mem_append.mpr ⟨value.head.inSpanName, hClose⟩⟩
        exact ⟨spans, hSpans.append hRest⟩
      · next hNested =>
        obtain ⟨inner, hOpening, hInner, hFree⟩ := exists_opening hNested
        have hJoined := (hSpans.append hComma).span (by simp) value.head.inSpanName hFree hInner
          hMore
        have hText : key.behind ++ ',' :: (value.print.toList ++ ['>']) =
            key.behind ++ [','] ++ (value.head.text.toList ++ '<' :: (inner ++ '>' :: value.behind))
              ++ ['>'] := by
          simp [toList_print_opening hNested, hOpening]
        rw [hText]
        exact ⟨_, hJoined.append hClose⟩
  | resource kind more => exact ⟨[], .nil⟩

theorem open_not_mem_residue (t : TypeTree) : '<' ∉ t.residue := by
  obtain ⟨spans, hSpans⟩ := t.exists_leaves
  exact hSpans.open_not_mem

/-- A type with nested brackets is cut into its first span, spurious spans and its residue. -/
theorem pieces_print {t : TypeTree} (h : 2 ≤ t.height) :
    ∃ spans, pieces t.print.toList = (t.opening ++ ['>']) :: (spans ++ [t.residue]) ∧
      ∀ p ∈ spans, Spurious p := by
  have hNested : t.height ≠ 0 := by omega
  obtain ⟨inner, hOpening, hInner, hClose⟩ := exists_opening hNested
  obtain ⟨spans, hSpans⟩ := t.exists_leaves
  have hPieces := hSpans.pieces_after_span (List.ne_nil_of_mem (close_mem_residue h))
    t.head.inSpanName t.head.toList_ne_nil hClose hInner
  refine ⟨spans, ?_, hSpans.spurious⟩
  rw [toList_print_opening hNested, hOpening]
  simpa using hPieces

theorem nestingDepth_opening_le (t : TypeTree) :
    nestingDepth (String.ofList t.opening) ≤ t.height := by
  rw [← nestingDepth_print, nestingDepth, nestingDepth, String.toList_ofList]
  refine deepestFrom_le_of_infix ?_
  by_cases h : t.height = 0
  · rw [opening_of_height h]
  · rw [toList_print_opening h]
    exact (List.prefix_append _ _).isInfix

theorem nestingDepth_span_le {t : TypeTree} (h : t.height ≠ 0) :
    nestingDepth (String.ofList (t.opening ++ ['>'])) ≤ t.height := by
  rw [← nestingDepth_print, nestingDepth, nestingDepth, String.toList_ofList,
    toList_print_opening h]
  exact deepestFrom_le_of_infix ⟨[], t.behind, by simp⟩

theorem outerName_opening (t : TypeTree) :
    outerName (String.ofList t.opening) = .ok t.head.text := by
  have hName : nameChars (String.ofList t.opening).toList = t.head.text.toList := by
    rw [String.toList_ofList, nameChars_opening]
  rw [outerName_of_nameChars hName t.head.toList_ne_nil, String.ofList_toList]

theorem argument_opening (t : TypeTree) : argument (String.ofList t.opening) = "" :=
  argument_of_not_mem (by rw [String.toList_ofList]; exact t.close_not_mem_opening)

end TypeTree

theorem PlainName.outerName_generic (name : PlainName) (inner : List Char) :
    outerName (String.ofList (name.text.toList ++ '<' :: inner)) = .ok name.text := by
  rw [Description.outerName_generic (name.not_mem (by decide)) name.toList_ne_nil,
    String.ofList_toList]

theorem PlainName.argument_generic (name : PlainName) (inner : List Char) :
    argument (String.ofList (name.text.toList ++ '<' :: (inner ++ ['>']))) = String.ofList inner :=
  Description.argument_generic (name.not_mem (by decide)) inner

namespace Checker

variable {policy : Policy} {t : TypeTree}

theorem decides_opening (h : t.height ≤ policy.maxDepth) (v : Value) :
    (({ policy } : Checker).check (String.ofList t.opening) v).Decides
      ((TypeTree.bare t.head).Admits v) :=
  decides_bare (Nat.le_trans t.nestingDepth_opening_le h) t.outerName_opening t.argument_opening v

theorem decides_generic_opening (name : HeadName) (h : t.height ≤ policy.maxDepth)
    (hDepth : nestingDepth (String.ofList (name.text.toList ++ '<' :: (t.opening ++ ['>']))) ≤
      policy.maxDepth) (v : Value) :
    (({ policy } : Checker).check
      (String.ofList (name.text.toList ++ '<' :: (t.opening ++ ['>']))) v).Decides
        ((TypeTree.generic name (.bare t.head)).Admits v) := by
  refine decides_generic hDepth (name.outerName_generic _) ?_ ?_ (decides_opening h) v
  · rw [name.argument_generic]
    exact String.ofList_eq_empty_iff.not.mpr t.opening_ne_nil
  · rw [name.argument_generic]
    exact keyValue_of_no_cut (by rw [String.toList_ofList]; exact t.cutAtComma_opening 0)

theorem decides_keyed_opening (name : HeadName) {key : TypeTree} (hBare : key.height = 0)
    (h : t.height ≤ policy.maxDepth)
    (hDepth : nestingDepth (String.ofList
        (name.text.toList ++ '<' :: ((key.opening ++ ',' :: t.opening) ++ ['>']))) ≤
      policy.maxDepth) (v : Value) :
    (({ policy } : Checker).check (String.ofList
      (name.text.toList ++ '<' :: ((key.opening ++ ',' :: t.opening) ++ ['>']))) v).Decides
        ((TypeTree.keyed name key (.bare t.head)).Admits v) := by
  have hKey : key.height ≤ policy.maxDepth := hBare ▸ Nat.zero_le _
  have hCut : cutAtComma 0 (key.opening ++ ',' :: t.opening) = some (key.opening, t.opening) := by
    refine cutAtComma_key (key.cutAtComma_opening 0) ?_ _
    rw [TypeTree.opening_of_height hBare, key.levelAfter_print]
  have hKeys := fun w => decides_opening hKey w
  rw [← TypeTree.eq_bare_of_height hBare] at hKeys
  refine decides_keyed hDepth (name.outerName_generic _) ?_ ?_
    (String.ofList_eq_empty_iff.not.mpr key.opening_ne_nil) hKeys (decides_opening h) v
  · rw [name.argument_generic]
    refine String.ofList_eq_empty_iff.not.mpr ?_
    exact List.append_ne_nil_of_right_ne_nil _ (List.cons_ne_nil _ _)
  · rw [name.argument_generic]
    exact keyValue_of_cut (by rw [String.toList_ofList]; exact hCut)

/-- The first span of a type stands for the type without the arguments inside its argument. -/
theorem decides_clipped (hNested : t.height ≠ 0) (h : t.height ≤ policy.maxDepth) (v : Value) :
    (({ policy } : Checker).check (String.ofList (t.opening ++ ['>'])) v).Decides
      (t.clipped.Admits v) := by
  have hDepth := Nat.le_trans (TypeTree.nestingDepth_span_le hNested) h
  cases t with
  | bare name => exact absurd rfl hNested
  | generic name value =>
    rw [TypeTree.opening, List.append_assoc, List.cons_append] at hDepth ⊢
    exact decides_generic_opening name (Nat.le_of_succ_le h) hDepth v
  | keyed name key value =>
    rw [TypeTree.height] at h
    have hKey : key.height ≤ policy.maxDepth := by omega
    have hValue : value.height ≤ policy.maxDepth := by omega
    rw [TypeTree.opening, List.append_assoc, List.cons_append] at hDepth ⊢
    rw [TypeTree.clipped]
    by_cases hBare : key.height = 0
    · rw [if_pos hBare] at hDepth ⊢
      rw [if_pos hBare]
      exact decides_keyed_opening name hBare hValue hDepth v
    · rw [if_neg hBare] at hDepth ⊢
      rw [if_neg hBare]
      exact decides_generic_opening name hKey hDepth v
  | resource kind more =>
    have hSpan : String.ofList ((TypeTree.resource kind more).opening ++ ['>']) =
        (TypeTree.resource kind more).print := by
      apply String.toList_inj.mp
      rw [String.toList_ofList, TypeTree.toList_print_opening hNested]
      rfl
    rw [hSpan]
    exact decides_print _ h v

theorem decides_spurious {p : List Char} (hSpurious : TypeTree.Spurious p)
    (hDepth : deepestFrom 0 p ≤ policy.maxDepth) (v : Value) :
    (({ policy } : Checker).check (String.ofList p) v).Decides False := by
  obtain ⟨name, inner, rfl, hOpen, hComma, hInner⟩ := hSpurious
  have hName := outerName_generic hOpen (List.ne_nil_of_mem hComma) (inner ++ ['>'])
  have hClass : Builtin.named (String.ofList name) = none := Builtin.named_of_mem hComma (by decide)
  refine decides_generic_class ?_ hName hClass ?_ v
  · rwa [nestingDepth, String.toList_ofList]
  · rw [argument_generic hOpen]
    exact String.ofList_eq_empty_iff.not.mpr hInner

/-- A text with a character that no type has in its name is the name of a class. -/
theorem decides_stray {s : List Char} (hOpen : '<' ∉ s) {c : Char} (hMem : c ∈ s)
    (hc : isPlain c = false) (v : Value) :
    (({ policy } : Checker).check (String.ofList s) v).Decides (v.IsInstance (String.ofList s)) := by
  have hClass : Builtin.named (String.ofList s) = none := Builtin.named_of_mem hMem hc
  have hName : nameChars (String.ofList s).toList = s := by
    rw [String.toList_ofList, nameChars_of_not_mem hOpen]
  refine decides_class ?_ (outerName_of_nameChars hName (List.ne_nil_of_mem hMem)) hClass ?_ v
  · rw [nestingDepth, String.toList_ofList]
    exact Nat.le_trans (deepestFrom_le_of_open_not_mem hOpen 0) (Nat.zero_le _)
  · rw [argument, String.toList_ofList, argumentChars_of_open_not_mem hOpen]

theorem validate_sole_iff (name : String) {d a : String} {v : Value} {P : Prop}
    (hAlternatives : alternatives d = [a]) (h : (({ policy } : Checker).check a v).Decides P) :
    ({ policy } : Checker).validate [.required name d] [(name, v)] = .ok [] ↔ P := by
  have hSole : ({ policy } : Checker).alternativesOf (.required name d) = [a] := hAlternatives
  refine (validate_eq_nil_iff (p := .required name d) ?_).trans ?_
  · rw [hSole, List.forall_mem_singleton]
    exact h.ne_malformed
  · simp only [hSole, List.mem_singleton, exists_eq_left]
    exact h.accepted_iff

/-- An argument for a parameter with a text that is cut into a first span, spurious spans and a gap
passes when the first span or the gap accepts it. -/
theorem validate_cut_iff (name : String) {d : String} {v : Value} {first gap : List Char}
    {spans : List (List Char)} {P Q : Prop} (hDepth : nestingDepth d ≤ policy.maxDepth)
    (hPieces : pieces d.toList = first :: (spans ++ [gap]))
    (hSpans : ∀ p ∈ spans, TypeTree.Spurious p)
    (hFirst : (({ policy } : Checker).check (String.ofList (expandShorthand first)) v).Decides P)
    (hGap : (({ policy } : Checker).check (String.ofList (expandShorthand gap)) v).Decides Q) :
    ({ policy } : Checker).validate [.required name d] [(name, v)] = .ok [] ↔ P ∨ Q := by
  have hAlternatives : ({ policy } : Checker).alternativesOf (.required name d) =
      (pieces d.toList).map fun piece => String.ofList (expandShorthand piece) := rfl
  have hMiddle : ∀ p ∈ spans,
      (({ policy } : Checker).check (String.ofList (expandShorthand p)) v).Decides False := by
    intro p hp
    have hShort : expandShorthand p = p := by
      obtain ⟨before, inner, rfl, -⟩ := hSpans p hp
      rw [← List.cons_append, ← List.append_assoc, expandShorthand_close]
    rw [hShort]
    refine decides_spurious (hSpans p hp) (Nat.le_trans ?_ hDepth) v
    refine deepestFrom_le_of_infix (infix_of_mem_pieces ?_)
    rw [hPieces]
    exact List.mem_cons_of_mem _ (List.mem_append_left _ hp)
  have hNone : ¬∃ p ∈ spans,
      ({ policy } : Checker).check (String.ofList (expandShorthand p)) v = .accepted := by
    rintro ⟨p, hp, hAccepted⟩
    exact (hMiddle p hp).accepted_iff.mp hAccepted
  refine (validate_eq_nil_iff (p := .required name d) ?_).trans ?_
  · rw [hAlternatives, hPieces, List.forall_mem_map, List.forall_mem_cons, List.forall_mem_append,
      List.forall_mem_singleton]
    exact ⟨hFirst.ne_malformed, fun p hp => (hMiddle p hp).ne_malformed, hGap.ne_malformed⟩
  · simp only [hAlternatives, hPieces, List.mem_map, exists_exists_and_eq_and,
      List.exists_mem_cons_iff, List.mem_append, or_and_right, exists_or, hNone, false_or,
      List.mem_singleton, exists_eq_left, exists_eq_left']
    rw [hFirst.accepted_iff, hGap.accepted_iff]

end Checker

/-! ### Types and what their first span admits -/

namespace TypeTree

variable {t : TypeTree} {v : Value}

theorem clipped_of_height (h : t.height ≤ 1) : t.clipped = t := by
  cases t with
  | bare name => rfl
  | generic name value =>
    have hValue : value.height = 0 := Nat.le_zero.mp (Nat.le_of_succ_le_succ h)
    rw [clipped, ← eq_bare_of_height hValue]
  | keyed name key value =>
    rw [height] at h
    have hKey : key.height = 0 := by omega
    have hValue : value.height = 0 := by omega
    rw [clipped, if_pos hKey, ← eq_bare_of_height hValue]
  | resource kind more => rfl

theorem head_clipped (t : TypeTree) : t.clipped.head = t.head := by
  cases t with
  | keyed name key value =>
    rw [clipped]
    split <;> rfl
  | _ => rfl

theorem admits_iff_holds {b : Builtin} (hName : Builtin.named t.head.text = some b)
    (hArray : b ≠ .array) (hResource : b ≠ .resource) : t.Admits v ↔ b.Holds v := by
  cases t with
  | bare name =>
    rw [head] at hName
    rw [Admits, hName]
  | generic name value =>
    rw [head] at hName
    rw [Admits, hName]
    cases b <;> first | rfl | contradiction
  | keyed name key value =>
    rw [head] at hName
    rw [Admits, hName]
    cases b <;> first | rfl | contradiction
  | resource kind more =>
    exact absurd (Option.some.inj hName).symm hResource

/-- Only the types of anything and of objects admit an object under an argument. -/
theorem named_of_admits_object {o : Instance} (h : t.height ≠ 0) (hAdmits : t.Admits (.object o)) :
    Builtin.named t.head.text = some .any ∨ Builtin.named t.head.text = some .object := by
  have hHolds : ∀ b : Builtin, b.Holds (.object o) → b = .any ∨ b = .object := by
    intro b hb
    cases b <;> simp [Builtin.Holds] at hb ⊢
  cases t with
  | bare name => exact absurd rfl h
  | generic name value =>
    rw [Admits] at hAdmits
    rw [head]
    split at hAdmits
    · obtain ⟨entries, hEntries, -⟩ := hAdmits
      cases hEntries
    · next b hArray hb => rcases hHolds b hAdmits with rfl | rfl <;> simp [hb]
    · exact hAdmits.elim
  | keyed name key value =>
    rw [Admits] at hAdmits
    rw [head]
    split at hAdmits
    · obtain ⟨entries, hEntries, -⟩ := hAdmits
      cases hEntries
    · next b hArray hb => rcases hHolds b hAdmits with rfl | rfl <;> simp [hb]
    · exact hAdmits.elim
  | resource kind more =>
    obtain ⟨received, id, hResource, -⟩ := hAdmits
    cases hResource

/-- Under the name of anything or of objects the first span and the residue admit together just what
the type admits. -/
theorem admits_clipped_or_instance_iff (className : String)
    (h : Builtin.named t.head.text = some .any ∨ Builtin.named t.head.text = some .object) :
    t.clipped.Admits v ∨ v.IsInstance className ↔ t.Admits v := by
  have hClipped : Builtin.named t.clipped.head.text = Builtin.named t.head.text := by
    rw [head_clipped]
  rcases h with hAny | hObject
  · rw [admits_iff_holds hAny (by decide) (by decide),
      admits_iff_holds (hClipped.trans hAny) (by decide) (by decide)]
    exact ⟨fun _ => trivial, fun _ => .inl trivial⟩
  · rw [admits_iff_holds hObject (by decide) (by decide),
      admits_iff_holds (hClipped.trans hObject) (by decide) (by decide)]
    constructor
    · rintro (hHolds | ⟨o, rfl, -⟩)
      · exact hHolds
      · exact ⟨o, rfl⟩
    · intro hHolds
      exact .inl hHolds

end TypeTree

theorem Instance.isA_className (o : Instance) : o.isA o.className = true := by
  simp [isA, names, sameClass]

/-! ### Validation -/

namespace Checker

variable {policy : Policy} {t : TypeTree}

theorem validate_flat_iff (name : String) (hFlat : t.height ≤ 1) (h : t.height ≤ policy.maxDepth)
    (v : Value) :
    ({ policy } : Checker).validate [.required name t.print] [(name, v)] = .ok [] ↔
      t.Admits v :=
  validate_sole_iff name (TypeTree.alternatives_print hFlat) (decides_print t h v)

theorem validate_nested_iff (name : String) (hNested : 2 ≤ t.height)
    (h : t.height ≤ policy.maxDepth) (v : Value) :
    ({ policy } : Checker).validate [.required name t.print] [(name, v)] = .ok [] ↔
      t.clipped.Admits v ∨ v.IsInstance (String.ofList t.residue) := by
  have hSquare : ∀ p ∈ pieces t.print.toList, expandShorthand p = p := fun p hp =>
    expandShorthand_of_not_mem fun hMem =>
      t.square_not_mem_print ((infix_of_mem_pieces hp).mem hMem)
  obtain ⟨spans, hPieces, hSpans⟩ := TypeTree.pieces_print hNested
  have hDepth : nestingDepth t.print ≤ policy.maxDepth := by rwa [t.nestingDepth_print]
  rw [hPieces] at hSquare
  refine validate_cut_iff name hDepth hPieces hSpans ?_ ?_
  · rw [hSquare _ List.mem_cons_self]
    exact decides_clipped (by omega) h v
  · rw [hSquare _ (by simp)]
    exact decides_stray t.open_not_mem_residue (TypeTree.close_mem_residue hNested) (by decide) v

/-- An argument for a parameter with a type passes when it conforms to the first span of the type
or, where the type has nested brackets, is an object of a class named by what is left behind the
spans.  So the validation says whether the value conforms to the type just when no brackets are
nested, or when the name of the type stands for anything or any object. -/
theorem validate_print (name : String) (h : t.height ≤ policy.maxDepth) :
    (∀ v, ({ policy } : Checker).validate [.required name t.print] [(name, v)] = .ok [] ↔
      t.clipped.Admits v ∨ 2 ≤ t.height ∧ v.IsInstance (String.ofList t.residue)) ∧
    ((∀ v, ({ policy } : Checker).validate [.required name t.print] [(name, v)] = .ok [] ↔
        t.Admits v) ↔
      t.height ≤ 1 ∨ Builtin.named t.head.text = some .any ∨
        Builtin.named t.head.text = some .object) := by
  rcases Nat.lt_or_ge t.height 2 with hFlat | hNested
  · have hFlat : t.height ≤ 1 := Nat.le_of_lt_succ hFlat
    have hPasses := fun v => validate_flat_iff name hFlat h v
    constructor
    · intro v
      rw [hPasses, TypeTree.clipped_of_height hFlat]
      constructor
      · exact .inl
      · intro hAdmits
        exact hAdmits.resolve_right fun hTwo => absurd hTwo.1 (Nat.not_le.mpr (by omega))
    · exact ⟨fun _ => .inl hFlat, fun _ => hPasses⟩
  · have hPasses := fun v => validate_nested_iff name hNested h v
    constructor
    · intro v
      rw [hPasses, and_iff_right hNested]
    · constructor
      · intro hAll
        -- An object of the class that is left over passes under every name.
        let o : Instance := ⟨String.ofList t.residue, []⟩
        have hInstance : (Value.object o).IsInstance (String.ofList t.residue) :=
          ⟨o, rfl, o.isA_className⟩
        have hObject : t.Admits (.object o) := (hAll _).mp ((hPasses _).mpr (.inr hInstance))
        exact .inr (TypeTree.named_of_admits_object (by omega) hObject)
      · intro hNamed v
        have hNamed := hNamed.resolve_left (Nat.not_le.mpr hNested)
        rw [hPasses, TypeTree.admits_clipped_or_instance_iff _ hNamed]

/-- The type of arrays of arrays of integers. -/
def integerTable : TypeTree :=
  .generic .array (.generic .array (.bare ⟨"int", by decide, by decide⟩))

/-- The validation does not say whether a value is an array of arrays of integers. -/
theorem validate_print_integerTable :
    ¬∀ v, ({} : Checker).validate [.required "p" integerTable.print] [("p", v)] = .ok [] ↔
      integerTable.Admits v := by
  have hDepth : integerTable.height ≤ ({} : Policy).maxDepth := by decide
  intro hAll
  have hCases := (validate_print "p" hDepth).2.mp hAll
  exact absurd hCases (by decide)

/-- A text in an array in an array passes for one of integers. -/
theorem validate_integerTable_text :
    ({} : Checker).validate [.required "p" "array<array<int>>"]
        [("p", .list [.list [.string "x"]])] = .ok [] ∧
      integerTable.print = "array<array<int>>" ∧
      ¬integerTable.Admits (.list [.list [.string "x"]]) := by
  refine ⟨by decide +kernel, by decide, ?_⟩
  rintro ⟨rows, hRows, hAll⟩
  cases hRows
  obtain ⟨cells, hCells, hCell⟩ := hAll _ List.mem_cons_self
  cases hCells
  obtain ⟨i, hInteger⟩ := hCell _ List.mem_cons_self
  cases hInteger

end Checker

end Conformance
