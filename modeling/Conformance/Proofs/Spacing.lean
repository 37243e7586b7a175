import Conformance.Proofs.Composition
import Conformance.Proofs.Trimming

/-! White space around the separators of a union.  The spaced grammar has the text cut first and
removes the white space from the pieces.  So it does not notice the white space beside most
separators; but between a closing bracket and a `|` white space is a piece of its own, an
alternative without a name, and behind the shorthand `[]` it keeps the shorthand from being read. -/

namespace Conformance

open Text Description

/-! ### Unions with white space -/

/-- A plain name without white space. -/
structure SolidName extends PlainName where
  solid : text.toList.all (!isBlank ·) = true

/-- The name of the type of arrays. -/
def SolidName.array : SolidName := ⟨HeadName.array.toPlainName, by decide⟩

/-- White space, or nothing. -/
structure Spacing where
  text : String
  blank : text.toList.all isBlank = true
deriving DecidableEq

def Spacing.none : Spacing := ⟨"", rfl⟩

/-- An alternative of a union, with the white space on both sides of its comma. -/
inductive SpacedType where
  | bare (name : SolidName)
  | list (name : SolidName)
  | generic (name value : SolidName)
  | keyed (name key : SolidName) (before after : Spacing) (value : SolidName)

/-- A union, with the white space on both sides of each bar. -/
inductive SpacedUnion where
  | last (t : SpacedType)
  | bar (t : SpacedType) (before after : Spacing) (rest : SpacedUnion)

/-- The values that conform to the type of a name with an argument: the resources of that kind, or
what the name makes of the conditions on keys and values. -/
def Builtin.AdmitsArgument (name argument : String) (K V : Value → Prop) (v : Value) : Prop :=
  if name = "resource" then ∃ id, v = .resource argument id else AdmitsParts name K V v

namespace SpacedType

/-- What stands between the brackets. -/
def inner : SpacedType → String
  | bare _ | list _ => ""
  | generic _ value => value.text
  | keyed _ key before after value => key.text ++ before.text ++ "," ++ (after.text ++ value.text)

/-- How an alternative is written. -/
def text : SpacedType → String
  | bare name => name.text
  | list name => name.text ++ "[]"
  | generic name value => name.text ++ "<" ++ (generic name value).inner ++ ">"
  | keyed name key before after value =>
    name.text ++ "<" ++ (keyed name key before after value).inner ++ ">"

/-- The alternative without the white space. -/
def tight : SpacedType → SpacedType
  | keyed name key _ _ value => keyed name key .none .none value
  | t => t

/-- Whether an alternative ends with a closing bracket. -/
def bracketed : SpacedType → Bool
  | bare _ | list _ => false
  | generic _ _ | keyed _ _ _ _ _ => true

/-- The values that an alternative takes when white space, or nothing, stands behind it. -/
def Takes (behind : Spacing) : SpacedType → Value → Prop
  | bare name, v => (TypeTree.bare name.toPlainName).Admits v
  | list name, v =>
    if behind = .none then (TypeTree.generic .array (.bare name.toPlainName)).Admits v
    else v.IsInstance (name.text ++ "[]")
  | generic name value, v => Builtin.AdmitsArgument name.text value.text (fun _ => True)
      (TypeTree.bare value.toPlainName).Admits v
  | keyed name key before after value, v =>
    Builtin.AdmitsArgument name.text (keyed name key before after value).inner
      (TypeTree.bare key.toPlainName).Admits (TypeTree.bare value.toPlainName).Admits v

/-- No white space stands behind a bracket, or beside the comma in a kind of resources. -/
def Harmless (behind : Spacing) : SpacedType → Prop
  | bare _ => True
  | list _ | generic _ _ => behind = .none
  | keyed name _ before after _ =>
    behind = .none ∧ (name.text = "resource" → before = .none ∧ after = .none)

end SpacedType

namespace SpacedUnion

/-- How a union is written. -/
def text : SpacedUnion → String
  | last t => t.text
  | bar t before after rest => t.text ++ before.text ++ "|" ++ (after.text ++ rest.text)

/-- The union without the white space. -/
def tight : SpacedUnion → SpacedUnion
  | last t => last t.tight
  | bar t _ _ rest => bar t.tight .none .none rest.tight

/-- White space stands between a closing bracket and a bar. -/
def Torn : SpacedUnion → Prop
  | last _ => False
  | bar t before _ rest => (t.bracketed = true ∧ before ≠ .none) ∨ rest.Torn

/-- The values that some alternative takes. -/
def Takes : SpacedUnion → Value → Prop
  | last t, v => t.Takes .none v
  | bar t before _ rest, v => t.Takes before v ∨ rest.Takes v

/-- No alternative has white space where it matters. -/
def Harmless : SpacedUnion → Prop
  | last t => t.Harmless .none
  | bar t before _ rest => t.Harmless before ∧ rest.Harmless

end SpacedUnion

/-! ### Names and white space as texts -/

namespace SolidName

variable (name : SolidName)

theorem solid_text : Solid name.text.toList := solid_of_all name.solid

theorem fitted : Fitted name.text.toList := name.solid_text.fitted name.toList_ne_nil

theorem trim_text : trim name.text = name.text := trim_of_solid name.solid_text

theorem fitted_enclosed (inner : String) : Fitted (name.text ++ "<" ++ inner ++ ">").toList := by
  have hClose : Fitted ['>'] := (solid_of_all (by decide)).fitted (by simp)
  have hWhole := name.fitted.append hClose ('<' :: inner.toList)
  simpa using hWhole

theorem fitted_shorthand : Fitted (name.text ++ "[]").toList := by
  have hMark : Fitted ['[', ']'] := (solid_of_all (by decide)).fitted (by simp)
  have hWhole := name.fitted.append hMark []
  simpa using hWhole

end SolidName

namespace Spacing

variable (s : Spacing)

theorem isBlank_of_mem {c : Char} (h : c ∈ s.text.toList) : isBlank c = true :=
  List.all_eq_true.mp s.blank c h

theorem toList_eq_nil_iff : s.text.toList = [] ↔ s = .none := by
  rw [String.toList_eq_nil_iff]
  constructor
  · intro h
    cases s with
    | mk text blank =>
      subst h
      rfl
  · rintro rfl
    rfl

@[simp] theorem text_none : Spacing.none.text = "" := rfl

end Spacing

theorem Spacing.plain_text (s : Spacing) : Plain s.text.toList := by
  intro c hc
  have hBlank := s.isBlank_of_mem hc
  rw [isPlain_iff]
  refine ⟨?_, ?_, ?_, ?_, ?_, ?_⟩ <;> rintro rfl <;> exact absurd hBlank (by decide)

theorem Text.trim_around {s : String} (h : Fitted s.toList) (before behind : Spacing) :
    trim (before.text ++ s ++ behind.text) = s := by
  apply String.toList_inj.mp
  rw [toList_trim, String.toList_append, String.toList_append]
  exact trimChars_around h (fun _ => before.isBlank_of_mem) fun _ => behind.isBlank_of_mem

theorem Text.trim_before {s : String} (h : Fitted s.toList) (behind : Spacing) :
    trim (s ++ behind.text) = s := by
  simpa using trim_around h .none behind

theorem Text.trim_behind {s : String} (h : Fitted s.toList) (lead : Spacing) :
    trim (lead.text ++ s) = s := by
  simpa using trim_around h lead .none

theorem Spacing.trim_text (s : Spacing) : trim s.text = "" := by
  apply String.toList_inj.mp
  rw [toList_trim, trimChars_of_blank fun _ => s.isBlank_of_mem]
  rfl

/-! ### How a union is cut -/

theorem Description.expandShorthand_of_behind {element behind : List Char} (h : '[' ∉ element)
    (hne : behind ≠ []) : expandShorthand (element ++ '[' :: ']' :: behind) =
      element ++ '[' :: ']' :: behind := by
  simp only [expandShorthand, dropWhile_ne_append h]
  simp [hne]

theorem Description.Closing.append {s t : List Char} (hs : Closing s) (ht : '<' ∉ t) :
    Closing (s ++ t) := by
  intro before after hEq
  rcases List.append_eq_append_iff.mp hEq with ⟨part, -, hPart⟩ | ⟨part, hPart, hRest⟩
  · exact absurd (hPart ▸ List.mem_append_right part List.mem_cons_self) ht
  · cases part with
    | nil =>
      rw [List.nil_append] at hRest
      exact absurd (hRest ▸ List.mem_cons_self) ht
    | cons c part =>
      rw [List.cons_append] at hRest
      cases hRest
      exact List.mem_append_left t (hs before part hPart)

/-- A name with an argument, between white space, is a piece of its own, and so is the white space
behind it. -/
theorem Description.alternatives_around_span (name : SolidName) {inner : String}
    (hSquare : '[' ∉ inner.toList) (hClose : '>' ∉ inner.toList) (hne : inner ≠ "")
    (lead behind : Spacing) :
    (alternatives (lead.text ++ (name.text ++ "<" ++ inner ++ ">") ++ behind.text)).map trim =
      if behind = .none then [name.text ++ "<" ++ inner ++ ">"]
      else [name.text ++ "<" ++ inner ++ ">", ""] := by
  have hName : Plain (lead.text.toList ++ name.text.toList) :=
    plain_append.mpr ⟨lead.plain_text, name.plain_text⟩
  have hText : (lead.text ++ (name.text ++ "<" ++ inner ++ ">") ++ behind.text).toList =
      (lead.text.toList ++ name.text.toList) ++
        '<' :: (inner.toList ++ '>' :: behind.text.toList) := by simp
  have hWhole : '[' ∉ (lead.text ++ (name.text ++ "<" ++ inner ++ ">") ++ behind.text).toList := by
    rw [hText]
    simp only [List.mem_append, List.mem_cons, not_or]
    have hLeft := hName.not_mem (show isPlain '[' = false by decide)
    have hRight := behind.plain_text.not_mem (show isPlain '[' = false by decide)
    exact ⟨by simpa using hLeft, by decide, hSquare, by decide, hRight⟩
  have hSpan : trim (String.ofList (lead.text.toList ++ name.text.toList ++
      '<' :: (inner.toList ++ ['>']))) = name.text ++ "<" ++ inner ++ ">" := by
    refine Eq.trans (congrArg trim ?_) (trim_behind (name.fitted_enclosed inner) lead)
    apply String.toList_inj.mp
    simp
  rw [alternatives_of_not_mem hWhole, hText, pieces_span hName.inSpanName
    (by simp [name.toList_ne_nil]) hClose (mt String.toList_eq_nil_iff.mp hne),
    pieces_of_name behind.plain_text.inSpanName, List.map_cons, List.map_cons, hSpan, addPiece]
  split
  · next hNone =>
    rw [if_pos (behind.toList_eq_nil_iff.mp (List.isEmpty_iff.mp hNone))]
    rfl
  · next hSome =>
    rw [if_neg fun hNone => hSome (List.isEmpty_iff.mpr (behind.toList_eq_nil_iff.mpr hNone))]
    simp [behind.trim_text]

namespace SpacedType

variable {t : SpacedType}

theorem mem_inner {c : Char} (h : c ∈ t.inner.toList) : c = ',' ∨ isPlain c = true := by
  cases t with
  | bare name => exact absurd h List.not_mem_nil
  | list name => exact absurd h List.not_mem_nil
  | generic name value => exact .inr (value.isPlain_of_mem h)
  | keyed name key before after value =>
    simp only [inner, String.toList_append, List.mem_append] at h
    rcases h with ((h | h) | h) | h | h
    · exact .inr (key.isPlain_of_mem h)
    · exact .inr (before.plain_text c h)
    · exact .inl (by simpa using h)
    · exact .inr (after.plain_text c h)
    · exact .inr (value.isPlain_of_mem h)

theorem not_mem_inner {c : Char} (hComma : c ≠ ',') (hc : isPlain c = false) (t : SpacedType) :
    c ∉ t.inner.toList := by
  intro hMem
  rcases mem_inner hMem with h | h
  · exact hComma h
  · rw [hc] at h
    cases h

theorem unbracketed_inner (t : SpacedType) : Unbracketed t.inner.toList := by
  intro c hc
  rcases mem_inner hc with rfl | hPlain
  · decide
  · exact ⟨(isPlain_iff.mp hPlain).1, (isPlain_iff.mp hPlain).2.1⟩

theorem trim_inner (t : SpacedType) : trim t.inner = t.inner := by
  cases t with
  | bare name => rfl
  | list name => rfl
  | generic name value => exact value.trim_text
  | keyed name key before after value =>
    have hFitted := key.fitted.append value.fitted
      (before.text.toList ++ ',' :: after.text.toList)
    exact trim_of_fitted (by simpa [inner] using hFitted)

theorem keyValue_inner_generic (name value : SolidName) :
    Grammar.spaced.keyValue (generic name value).inner = ("", value.text) := by
  show Grammar.spaced.keyValue value.text = _
  rw [Grammar.spaced_keyValue_of_solid value.solid_text]
  exact keyValue_of_no_cut (cutAtComma_of_not_mem (value.not_mem (by decide)) 0)

theorem keyValue_inner_keyed (name key : SolidName) (before after : Spacing) (value : SolidName) :
    Grammar.spaced.keyValue (keyed name key before after value).inner =
      (key.text, value.text) := by
  have hPlain : Plain (key.text ++ before.text).toList := by
    rw [String.toList_append]
    exact plain_append.mpr ⟨key.plain_text, before.plain_text⟩
  have hText : (keyed name key before after value).inner.toList =
      (key.text ++ before.text).toList ++ ',' :: (after.text ++ value.text).toList := by
    simp [inner]
  have hCut := cutAtComma_key (cutAtComma_of_not_mem (hPlain.not_mem (by decide)) 0)
    (hPlain.unbracketed.levelAfter 0) (after.text ++ value.text).toList
  rw [← hText] at hCut
  have hParts := keyValue_of_cut hCut
  rw [String.ofList_toList, String.ofList_toList] at hParts
  show (trim (Description.keyValue _).1, trim (Description.keyValue _).2) = _
  rw [hParts, trim_before key.fitted, trim_behind value.fitted]

theorem alternatives_inner (h : t.inner ≠ "") :
    Grammar.spaced.alternatives t.inner = [t.inner] := by
  have hNames : ∀ c ∈ t.inner.toList, Description.inSpanName c = true := by
    intro c hc
    rcases mem_inner hc with rfl | hPlain
    · decide
    · have hPlain := isPlain_iff.mp hPlain
      simp [Description.inSpanName, hPlain.1, hPlain.2.2.2.1]
  have hPieces : alternatives t.inner = [t.inner] := by
    rw [alternatives_of_not_mem (not_mem_inner (by decide) (by decide) t), pieces_of_name hNames]
    simp [addPiece, h]
  show (alternatives t.inner).map trim = [t.inner]
  rw [hPieces, List.map_singleton, trim_inner]

theorem fitted (t : SpacedType) : Fitted t.text.toList := by
  cases t with
  | bare name => exact name.fitted
  | list name => exact name.fitted_shorthand
  | generic name value => exact name.fitted_enclosed _
  | keyed name key before after value => exact name.fitted_enclosed _

/-- The description that the spaced grammar makes of an alternative between white space. -/
def reading (lead behind : Spacing) : SpacedType → String
  | list name =>
    if behind = .none then SolidName.array.text ++ "<" ++ (lead.text ++ name.text) ++ ">"
    else name.text ++ "[]"
  | t => t.text

/-- What the spaced grammar makes of an alternative between white space: its description, and one
without a name for white space behind a bracket. -/
def readings (lead behind : Spacing) (t : SpacedType) : List String :=
  if t.bracketed = true ∧ behind ≠ .none then [t.reading lead behind, ""]
  else [t.reading lead behind]

theorem plain_around (lead : Spacing) (name : SolidName) (behind : Spacing) :
    Plain (lead.text ++ name.text ++ behind.text).toList := by
  rw [String.toList_append, String.toList_append]
  exact plain_append.mpr ⟨plain_append.mpr ⟨lead.plain_text, name.plain_text⟩, behind.plain_text⟩

theorem closing_around (lead : Spacing) (t : SpacedType) (behind : Spacing) :
    Closing (lead.text ++ t.text ++ behind.text).toList := by
  have hOpen (s : Spacing) : '<' ∉ s.text.toList := s.plain_text.not_mem (by decide)
  have hSpan (name : SolidName) (inner : String) :
      Closing (lead.text ++ (name.text ++ "<" ++ inner ++ ">") ++ behind.text).toList := by
    have hEnd := (closing_of_end (lead.text.toList ++ name.text.toList ++
      '<' :: inner.toList)).append (hOpen behind)
    simpa using hEnd
  cases t with
  | bare name => exact closing_of_not_mem ((plain_around lead name behind).not_mem (by decide))
  | list name =>
    apply closing_of_not_mem
    simp [text, hOpen, name.not_mem (c := '<') (by decide)]
  | generic name value => exact hSpan name _
  | keyed name key before after value => exact hSpan name _

theorem alternatives_around (lead : Spacing) (t : SpacedType) (behind : Spacing) :
    (alternatives (lead.text ++ t.text ++ behind.text)).map trim = t.readings lead behind := by
  have hSpan (name : SolidName) (hne : t.inner ≠ "") := alternatives_around_span name
    (not_mem_inner (by decide) (by decide) t) (not_mem_inner (by decide) (by decide) t) hne
    lead behind
  cases t with
  | bare name =>
    have hPlain := plain_around lead name behind
    rw [text, alternatives_of_not_mem (hPlain.not_mem (by decide)),
      pieces_of_name hPlain.inSpanName, addPiece, if_neg (by simp [name.toList_ne_nil])]
    simp only [List.map_cons, List.map_nil, String.ofList_toList, trim_around name.fitted]
    rfl
  | list name =>
    have hElement : Plain (lead.text.toList ++ name.text.toList) :=
      plain_append.mpr ⟨lead.plain_text, name.plain_text⟩
    have hSquare := hElement.not_mem (show isPlain '[' = false by decide)
    have hText : (lead.text ++ (name.text ++ "[]") ++ behind.text).toList =
        lead.text.toList ++ name.text.toList ++ '[' :: ']' :: behind.text.toList := by simp
    have hNames : ∀ c ∈ lead.text.toList ++ name.text.toList ++ '[' :: ']' :: behind.text.toList,
        Description.inSpanName c = true :=
      List.forall_mem_append.mpr ⟨hElement.inSpanName, List.forall_mem_cons.mpr
        ⟨by decide, List.forall_mem_cons.mpr ⟨by decide, behind.plain_text.inSpanName⟩⟩⟩
    rw [text, alternatives, hText, pieces_of_name hNames, addPiece, if_neg (by simp),
      List.map_singleton, List.map_singleton, readings, if_neg (by simp [bracketed]), reading]
    refine congrArg (fun d => [d]) ?_
    split
    · next hNone =>
      subst hNone
      have hNothing : Spacing.none.text.toList = [] := rfl
      rw [hNothing, expandShorthand_append hSquare (by simp [name.toList_ne_nil])]
      refine Eq.trans (congrArg trim ?_) (trim_of_fitted (SolidName.array.fitted_enclosed _))
      apply String.toList_inj.mp
      simp [SolidName.array, HeadName.array]
    · next hSome =>
      rw [expandShorthand_of_behind hSquare (mt behind.toList_eq_nil_iff.mp hSome)]
      refine Eq.trans (congrArg trim ?_) (trim_around name.fitted_shorthand lead behind)
      apply String.toList_inj.mp
      simp
  | generic name value =>
    refine (hSpan name value.nonempty).trans ?_
    simp [readings, bracketed, reading, text]
  | keyed name key before after value =>
    refine (hSpan name (by simp [inner])).trans ?_
    simp [readings, bracketed, reading, text]

end SpacedType

namespace SpacedUnion

theorem fitted (u : SpacedUnion) : Fitted u.text.toList := by
  induction u with
  | last t => exact t.fitted
  | bar t before after rest ih =>
    have hWhole := t.fitted.append ih (before.text.toList ++ '|' :: after.text.toList)
    simpa [text] using hWhole

/-- What the spaced grammar makes of the alternatives of a union behind white space. -/
def readings (lead : Spacing) : SpacedUnion → List String
  | last t => t.readings lead .none
  | bar t before after rest => t.readings lead before ++ rest.readings after

theorem alternatives_behind (lead : Spacing) (u : SpacedUnion) :
    (alternatives (lead.text ++ u.text)).map trim = u.readings lead := by
  induction u generalizing lead with
  | last t =>
    rw [readings, ← t.alternatives_around lead .none]
    simp [text]
  | bar t before after rest ih =>
    have hText : lead.text ++ (bar t before after rest).text =
        lead.text ++ t.text ++ before.text ++ "|" ++ (after.text ++ rest.text) := by
      simp [text, String.append_assoc]
    -- A span never reaches over the bar, so the two sides are cut apart.
    rw [hText, alternatives_append_bar (t.closing_around lead before), List.map_append,
      t.alternatives_around lead before, ih, readings]

end SpacedUnion

/-! ### What the descriptions accept -/

namespace Checker

variable {policy : Policy} {d name : String}

theorem reads_spaced (hDepth : nestingDepth d ≤ policy.maxDepth) (hName : outerName d = .ok name)
    (hTrim : trim name = name) : (spaced policy).Reads d name (trim (argument d)) where
  depth := hDepth
  outerName := by
    have hMap : (spaced policy).grammar.outerName d = (Description.outerName d).map trim := rfl
    rw [hMap, hName, Except.map, hTrim]
  argument := rfl
  check_eq := (descends_spaced policy).check_eq d

theorem find?_spaced (name : String) :
    (spaced policy).catalogue.find? name = Catalogue.builtins.find? name := rfl

theorem nestingDepth_enclosed (name : SolidName) {inner : String}
    (hInner : Unbracketed inner.toList) :
    nestingDepth (name.text ++ "<" ++ inner ++ ">") ≤ 1 := by
  have hDeepest := hInner.deepestFrom_le (0 + 1)
  have hName := name.unbracketed.deepestFrom_le 0
  rw [nestingDepth, enclosed_eq, String.toList_ofList, deepestFrom_append,
    name.unbracketed.levelAfter, deepestFrom, level_open, deepestFrom_append, hInner.levelAfter]
  simp only [deepestFrom, level_close]
  omega

/-- A name with an argument takes the resources of that kind, or what the parts of the argument
make of it. -/
theorem decides_enclosed (h : 1 ≤ policy.maxDepth) (name : SolidName) {inner argument : String}
    (hInner : Unbracketed inner.toList) (hTrim : trim inner = argument) (hGiven : argument ≠ "")
    (hKinds : Grammar.spaced.alternatives argument = [argument]) {keyType valueType : String}
    (hParts : Grammar.spaced.keyValue argument = (keyType, valueType)) {K V : Value → Prop}
    (hFree : keyType = "" → ∀ v, K v)
    (hKey : keyType ≠ "" → ∀ v, ((spaced policy).check keyType v).Decides (K v))
    (hValue : ∀ v, ((spaced policy).check valueType v).Decides (V v)) (v : Value) :
    ((spaced policy).check (name.text ++ "<" ++ inner ++ ">") v).Decides
      (Builtin.AdmitsArgument name.text argument K V v) := by
  have hOpen : '<' ∉ name.text.toList := name.not_mem (by decide)
  have hReads := reads_spaced (Nat.le_trans (nestingDepth_enclosed name hInner) h)
    (outerName_enclosed name.nonempty hOpen inner) name.trim_text
  rw [argument_enclosed hOpen, hTrim] at hReads
  rw [Builtin.AdmitsArgument]
  split
  · next hName =>
    have hResource : Builtin.named name.text = some .resource := by
      rw [hName]
      rfl
    have hAlternatives : (spaced policy).grammar.alternatives argument = [argument] := hKinds
    refine (hReads.decides_resource (find?_spaced _) hResource hGiven v).congr ?_
    simp [hAlternatives]
  · next hName =>
    exact hReads.decides_parts (find?_spaced _)
      (fun hb => hName (Builtin.eq_resource_of_named hb)) hGiven hParts hFree hKey hValue v

theorem decides_name (name : SolidName) (v : Value) :
    ((spaced policy).check name.text v).Decides
      ((TypeTree.bare name.toPlainName).Admits v) := by
  have hDepth : nestingDepth name.text ≤ policy.maxDepth :=
    Nat.le_trans (name.unbracketed.deepestFrom_le 0) (Nat.zero_le _)
  have hReads := reads_spaced hDepth (TypeTree.outerName_print (.bare name.toPlainName))
    name.trim_text
  rw [argument_of_not_mem (name.not_mem (by decide)), trim_empty] at hReads
  exact hReads.decides_bare (find?_spaced _) v

/-- The shorthand that is not read is the name of a class. -/
theorem decides_shorthand (name : SolidName) (v : Value) :
    ((spaced policy).check (name.text ++ "[]") v).Decides (v.IsInstance (name.text ++ "[]")) := by
  have hOpen : '<' ∉ (name.text ++ "[]").toList := by
    simp [name.not_mem (c := '<') (by decide)]
  have hClose : '>' ∉ (name.text ++ "[]").toList := by
    simp [name.not_mem (c := '>') (by decide)]
  have hDepth : nestingDepth (name.text ++ "[]") ≤ policy.maxDepth :=
    Nat.le_trans (deepestFrom_le_of_open_not_mem hOpen 0) (Nat.zero_le _)
  have hName : outerName (name.text ++ "[]") = .ok (name.text ++ "[]") := by
    rw [outerName_of_nameChars (nameChars_of_not_mem hOpen) (by simp), String.ofList_toList]
  have hReads := reads_spaced hDepth hName (trim_of_fitted name.fitted_shorthand)
  rw [argument_of_not_mem hClose, trim_empty] at hReads
  have hClass : Builtin.named (name.text ++ "[]") = none := by
    rw [← String.ofList_toList (s := name.text ++ "[]")]
    exact Builtin.named_of_mem (c := '[') (by simp) (by decide)
  exact hReads.decides_class (find?_spaced _) hClass rfl v

theorem decides_reading (h : 1 ≤ policy.maxDepth) (lead behind : Spacing) (t : SpacedType)
    (v : Value) : ((spaced policy).check (t.reading lead behind) v).Decides (t.Takes behind v) := by
  cases t with
  | bare name => exact decides_name name v
  | list name =>
    rw [SpacedType.reading, SpacedType.Takes]
    split
    · have hInner : Unbracketed (lead.text ++ name.text).toList := by
        rw [String.toList_append]
        exact (plain_append.mpr ⟨lead.plain_text, name.plain_text⟩).unbracketed
      refine (decides_enclosed h .array hInner (trim_behind name.fitted lead) name.nonempty
        (SpacedType.alternatives_inner (t := .generic .array name) name.nonempty)
        (SpacedType.keyValue_inner_generic .array name)
        (fun _ _ => trivial) (fun hTyped => absurd rfl hTyped) (decides_name name) v).congr ?_
      rw [TypeTree.admits_generic_iff]
      rfl
    · exact decides_shorthand name v
  | generic name value =>
    exact decides_enclosed h name (SpacedType.unbracketed_inner (.generic name value))
      (SpacedType.trim_inner (.generic name value)) value.nonempty
      (SpacedType.alternatives_inner (t := .generic name value) value.nonempty)
      (SpacedType.keyValue_inner_generic name value)
      (fun _ _ => trivial) (fun hTyped => absurd rfl hTyped) (decides_name value) v
  | keyed name key before after value =>
    have hGiven : (SpacedType.keyed name key before after value).inner ≠ "" := by
      simp [SpacedType.inner]
    exact decides_enclosed h name (SpacedType.unbracketed_inner _) (SpacedType.trim_inner _) hGiven
      (SpacedType.alternatives_inner hGiven)
      (SpacedType.keyValue_inner_keyed name key before after value)
      (fun hFree => absurd hFree key.nonempty) (fun _ => decides_name key) (decides_name value) v

end Checker

/-! ### Alternatives without a name -/

namespace SpacedType

variable {lead behind : Spacing} {t : SpacedType} {d : String}

theorem mem_readings_iff : d ∈ t.readings lead behind ↔
    d = t.reading lead behind ∨ (t.bracketed = true ∧ behind ≠ .none) ∧ d = "" := by
  unfold readings
  split
  · next hTorn => simp [hTorn]
  · next hTorn => simp [hTorn]

theorem reading_ne_empty (lead behind : Spacing) (t : SpacedType) :
    t.reading lead behind ≠ "" := by
  cases t with
  | bare name => exact name.nonempty
  | list name =>
    rw [reading]
    split <;> simp
  | generic name value => simp [reading, text]
  | keyed name key before after value => simp [reading, text]

end SpacedType

namespace Checker

variable {policy : Policy}

theorem check_spaced_empty (v : Value) :
    (spaced policy).check "" v = .malformed (.missingName "") := by
  have hName : (spaced policy).grammar.outerName "" = .error (.missingName "") := rfl
  have hInspect := inspect_of_nameless (c := spaced policy) (d := "") (Nat.zero_le _) hName v
  refine ((descends_spaced policy).check_eq "" v).trans ?_
  rw [id, hInspect]
  rfl

/-- Of some descriptions, one is without a name when a union is torn; the others are understood, and
some description accepts a value when the union takes it. -/
structure Judges (c : Checker) (v : Value) (ds : List String) (torn takes : Prop) : Prop where
  understood : ∀ d ∈ ds, d = "" ∨ (c.check d v).Understood
  torn_iff : "" ∈ ds ↔ torn
  takes_iff : (∃ d ∈ ds, c.check d v = .accepted) ↔ takes

variable {v : Value} {ds es : List String} {torn takes torn' takes' : Prop}

theorem Judges.append {c : Checker} (hFirst : c.Judges v ds torn takes)
    (hRest : c.Judges v es torn' takes') :
    c.Judges v (ds ++ es) (torn ∨ torn') (takes ∨ takes') where
  understood := List.forall_mem_append.mpr ⟨hFirst.understood, hRest.understood⟩
  torn_iff := by rw [List.mem_append, hFirst.torn_iff, hRest.torn_iff]
  takes_iff := by
    rw [← hFirst.takes_iff, ← hRest.takes_iff]
    simp only [List.mem_append, or_and_right, exists_or]

theorem judges_type (h : 1 ≤ policy.maxDepth) (lead behind : Spacing) (t : SpacedType) (v : Value) :
    (spaced policy).Judges v (t.readings lead behind) (t.bracketed = true ∧ behind ≠ .none)
      (t.Takes behind v) := by
  have hDecides := decides_reading h lead behind t v
  refine ⟨fun d hd => ?_, ?_, ?_⟩
  · rcases SpacedType.mem_readings_iff.mp hd with rfl | ⟨-, rfl⟩
    · exact .inr hDecides.ne_malformed
    · exact .inl rfl
  · rw [SpacedType.mem_readings_iff, or_iff_right (t.reading_ne_empty lead behind).symm,
      and_iff_left rfl]
  · rw [← hDecides.accepted_iff]
    constructor
    · rintro ⟨d, hd, hAccepted⟩
      rcases SpacedType.mem_readings_iff.mp hd with rfl | ⟨-, rfl⟩
      · exact hAccepted
      · rw [check_spaced_empty] at hAccepted
        cases hAccepted
    · intro hAccepted
      exact ⟨_, SpacedType.mem_readings_iff.mpr (.inl rfl), hAccepted⟩

theorem judges_union (h : 1 ≤ policy.maxDepth) (lead : Spacing) (u : SpacedUnion) (v : Value) :
    (spaced policy).Judges v (u.readings lead) u.Torn (u.Takes v) := by
  induction u generalizing lead with
  | last t =>
    have hType := judges_type h lead .none t v
    exact ⟨hType.understood, hType.torn_iff.trans (by simp [SpacedUnion.Torn]), hType.takes_iff⟩
  | bar t before after rest ih => exact (judges_type h lead before t v).append (ih after)

/-! ### Validation -/

theorem alternativesOf_spaced (name : String) (u : SpacedUnion) :
    (spaced policy).alternativesOf (.required name u.text) = u.readings .none := by
  have hPieces := u.alternatives_behind .none
  rw [Spacing.text_none, String.empty_append] at hPieces
  show (alternatives (trim u.text)).map trim = _
  rw [trim_of_fitted u.fitted, hPieces]

/-- Where the union is torn, an alternative without a name is found before anything is said of the
argument; otherwise the argument is reported on just when the union does not take it. -/
theorem validate_spaced (h : 1 ≤ policy.maxDepth) (name : String) (u : SpacedUnion) (v : Value) :
    (u.Torn → (spaced policy).validate [.required name u.text] [(name, v)] =
      .error (.malformed (.missingName ""))) ∧
    (¬u.Torn → ∃ diagnostics,
      (spaced policy).validate [.required name u.text] [(name, v)] = .ok diagnostics ∧
        (diagnostics = [] ↔ u.Takes v)) := by
  have hJudges := judges_union h .none u v
  rw [← alternativesOf_spaced name u] at hJudges
  constructor
  · intro hTorn
    obtain ⟨earlier, later, hSplit, hFirst⟩ :=
      List.eq_append_cons_of_mem (hJudges.torn_iff.mpr hTorn)
    have hEarlier : ∀ d ∈ earlier, ((spaced policy).check d v).Understood := by
      intro d hd
      have hMem : d ∈ (spaced policy).alternativesOf (.required name u.text) := by
        rw [hSplit]
        exact List.mem_append_left _ hd
      exact (hJudges.understood d hMem).resolve_left fun hEmpty => hFirst (hEmpty ▸ hd)
    have hError := validateArgument_eq_error_iff.mpr
      ⟨earlier, "", later, _, hSplit, hEarlier, check_spaced_empty v, rfl⟩
    refine (validate_single (spaced policy) (.required name u.text) v).trans ?_
    rw [hError]
    rfl
  · intro hTorn
    have hUnderstood : ∀ d ∈ (spaced policy).alternativesOf (.required name u.text),
        ((spaced policy).check d v).Understood := by
      intro d hd
      exact (hJudges.understood d hd).resolve_left fun hEmpty =>
        hTorn (hJudges.torn_iff.mp (hEmpty ▸ hd))
    refine ⟨_, validate_eq hUnderstood, ?_⟩
    rw [Option.toList_eq_nil_iff, conclude_outcomes_eq_none_iff hUnderstood, hJudges.takes_iff]

end Checker

/-! ### Unions without white space -/

namespace SpacedType

theorem solid_tight (t : SpacedType) : Solid t.tight.text.toList := by
  have hMarks : Solid ['<'] ∧ Solid ['>'] ∧ Solid ['[', ']'] ∧ Solid [','] :=
    ⟨solid_of_all (by decide), solid_of_all (by decide), solid_of_all (by decide),
      solid_of_all (by decide)⟩
  obtain ⟨hOpen, hClose, hShorthand, hComma⟩ := hMarks
  cases t with
  | bare name => exact name.solid_text
  | list name =>
    have hWhole := solid_append.mpr ⟨name.solid_text, hShorthand⟩
    simpa [tight, text] using hWhole
  | generic name value =>
    have hFront := solid_append.mpr ⟨name.solid_text, hOpen⟩
    have hWhole := solid_append.mpr ⟨hFront, solid_append.mpr ⟨value.solid_text, hClose⟩⟩
    simpa [tight, text, inner] using hWhole
  | keyed name key before after value =>
    have hFront := solid_append.mpr ⟨name.solid_text, hOpen⟩
    have hInner := solid_append.mpr ⟨key.solid_text, solid_append.mpr ⟨hComma, value.solid_text⟩⟩
    have hWhole := solid_append.mpr ⟨hFront, solid_append.mpr ⟨hInner, hClose⟩⟩
    simpa [tight, text, inner] using hWhole

theorem Harmless.of_bracketed {t : SpacedType} {behind : Spacing} (h : t.Harmless behind)
    (hBracketed : t.bracketed = true) : behind = .none := by
  cases t with
  | bare name => cases hBracketed
  | list name => cases hBracketed
  | generic name value => exact h
  | keyed name key before after value => exact h.1

theorem Harmless.takes_iff {t : SpacedType} {behind : Spacing} (h : t.Harmless behind)
    (v : Value) : t.Takes behind v ↔ t.tight.Takes .none v := by
  cases t with
  | bare name => rfl
  | list name =>
    obtain rfl : behind = .none := h
    rfl
  | generic name value => rfl
  | keyed name key before after value =>
    simp only [tight, Takes, Builtin.AdmitsArgument]
    by_cases hName : name.text = "resource"
    · obtain ⟨rfl, rfl⟩ := h.2 hName
      rfl
    · rw [if_neg hName, if_neg hName]

end SpacedType

namespace SpacedUnion

theorem solid_tight (u : SpacedUnion) : Solid u.tight.text.toList := by
  induction u with
  | last t => exact t.solid_tight
  | bar t before after rest ih =>
    have hBar : Solid ['|'] := solid_of_all (by decide)
    have hWhole := solid_append.mpr ⟨solid_append.mpr ⟨t.solid_tight, hBar⟩, ih⟩
    simpa [tight, text] using hWhole

theorem not_torn_tight (u : SpacedUnion) : ¬u.tight.Torn := by
  induction u with
  | last t => exact id
  | bar t before after rest ih =>
    rintro (⟨-, hSome⟩ | hRest)
    · exact hSome rfl
    · exact ih hRest

theorem Harmless.not_torn {u : SpacedUnion} (h : u.Harmless) : ¬u.Torn := by
  induction u with
  | last t => exact id
  | bar t before after rest ih =>
    rintro (⟨hBracketed, hSome⟩ | hRest)
    · exact hSome (h.1.of_bracketed hBracketed)
    · exact ih h.2 hRest

theorem Harmless.takes_iff {u : SpacedUnion} (h : u.Harmless) (v : Value) :
    u.Takes v ↔ u.tight.Takes v := by
  induction u with
  | last t => exact SpacedType.Harmless.takes_iff h v
  | bar t before after rest ih => exact or_congr (h.1.takes_iff v) (ih h.2)

end SpacedUnion

/-- Two validations both fail, or both report something, or both report nothing. -/
def SameOutcome (x y : Except SetupError (List Diagnostic)) : Prop :=
  ((∃ e, x = .error e) ↔ ∃ e, y = .error e) ∧ (x = .ok [] ↔ y = .ok [])

namespace Checker

variable {policy : Policy}

/-- With white space around the separators of a union, the spaced grammar has the outcome that the
standard one has without it just when the union is not torn and takes the value as before.  A torn
union is an error whatever the value; white space elsewhere is harmless but for that behind the
shorthand and that in a kind of resources. -/
theorem validate_padded (h : 1 ≤ policy.maxDepth) (name : String) (u : SpacedUnion) (v : Value) :
    let padded := (spaced policy).validate [.required name u.text] [(name, v)]
    let plain := ({ policy } : Checker).validate [.required name u.tight.text] [(name, v)]
    (SameOutcome padded plain ↔ ¬u.Torn ∧ (u.Takes v ↔ u.tight.Takes v)) ∧
    (u.Torn → padded = .error (.malformed (.missingName "")) ∧ ∃ lines, plain = .ok lines) ∧
    (¬u.Torn → ∃ lines, padded = .ok lines ∧ (lines = [] ↔ u.Takes v)) ∧
    (u.Harmless → SameOutcome padded plain) := by
  intro padded plain
  obtain ⟨hError, hLines⟩ := validate_spaced h name u v
  -- Without white space the two grammars agree, so the plain outcome is one of the spaced grammar.
  obtain ⟨lines, hPlain, hNil⟩ := (validate_spaced h name u.tight v).2 u.not_torn_tight
  rw [validate_spaced_of_solid u.solid_tight] at hPlain
  have hSame : SameOutcome padded plain ↔ ¬u.Torn ∧ (u.Takes v ↔ u.tight.Takes v) := by
    have hPlainOk : plain = .ok lines := hPlain
    by_cases hTorn : u.Torn
    · have hPaddedError : padded = .error _ := hError hTorn
      simp [SameOutcome, hPaddedError, hPlainOk, hTorn]
    · obtain ⟨paddedLines, hPadded, hPaddedNil⟩ := hLines hTorn
      have hPaddedOk : padded = .ok paddedLines := hPadded
      simp [SameOutcome, hPaddedOk, hPlainOk, hTorn, hPaddedNil, hNil]
  refine ⟨hSame, fun hTorn => ⟨hError hTorn, lines, hPlain⟩, hLines, fun hHarmless => ?_⟩
  exact hSame.mpr ⟨hHarmless.not_torn, hHarmless.takes_iff v⟩

def numericName : SolidName := ⟨⟨"numeric", by decide, by decide⟩, by decide⟩

/-- Tables of numbers, with white space around the comma. -/
def numericTable : SpacedType :=
  .keyed .array numericName ⟨" ", by decide⟩ ⟨"\t", by decide⟩ numericName

/-- Numbers or tables of them, the tables in front of the bar or behind it. -/
def numericUnion (tableFirst : Bool) : SpacedUnion :=
  if tableFirst then .bar numericTable ⟨" ", by decide⟩ .none (.last (.bare numericName))
  else .bar (.bare numericName) ⟨" ", by decide⟩ .none (.last numericTable)

/-- The same white space is an error behind a table and harmless behind a name. -/
theorem validate_padded_tables :
    (spaced {}).validate [.required "p" "array<numeric ,\tnumeric> |numeric"]
        [("p", .integer 1)] = .error (.malformed (.missingName "")) ∧
      SameOutcome
        ((spaced {}).validate [.required "p" "numeric |array<numeric ,\tnumeric>"]
          [("p", .list [.string "x"])])
        (({} : Checker).validate [.required "p" "numeric|array<numeric,numeric>"]
          [("p", .list [.string "x"])]) := by
  have hLimit : 1 ≤ ({} : Policy).maxDepth := by decide
  have hFirst : numericUnion true |>.Torn := .inl ⟨rfl, by decide⟩
  have hSecond : numericUnion false |>.Harmless := ⟨trivial, rfl, by decide⟩
  have hTexts : (numericUnion true).text = "array<numeric ,\tnumeric> |numeric" ∧
      (numericUnion false).text = "numeric |array<numeric ,\tnumeric>" ∧
      (numericUnion false).tight.text = "numeric|array<numeric,numeric>" := by decide
  obtain ⟨-, hError, -, -⟩ := validate_padded hLimit "p" (numericUnion true) (.integer 1)
  obtain ⟨-, -, -, hSame⟩ :=
    validate_padded hLimit "p" (numericUnion false) (.list [.string "x"])
  rw [hTexts.1] at hError
  rw [hTexts.2.1, hTexts.2.2] at hSame
  exact ⟨(hError hFirst).1, hSame hSecond⟩

/-- White space behind a bracket is an error, and behind the shorthand it turns an empty list away;
without the white space both arguments pass. -/
theorem validate_spaced_behind :
    (spaced {}).validate [.required "p" "array<numeric> |numeric"] [("p", .integer 1)] =
      .error (.malformed (.missingName "")) ∧
    ({} : Checker).validate [.required "p" "array<numeric>|numeric"] [("p", .integer 1)] =
      .ok [] ∧
    (spaced {}).validate [.required "p" "numeric[] |numeric"] [("p", .list [])] =
      .ok [.noAlternative "p" "numeric[] |numeric"] ∧
    ({} : Checker).validate [.required "p" "numeric[]|numeric"] [("p", .list [])] = .ok [] := by
  decide +kernel

end Checker

end Conformance
