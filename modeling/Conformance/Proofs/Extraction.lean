import Conformance.Proofs.DeclarationText
import Conformance.Proofs.Outcome

/-! Extraction of parameters from documentation.  A text made of declarations, with filler around
them, gives back the parameters that it declares.  Whatever the text, what is extracted can be used:
names and types are runs without white space, and no name occurs twice, so that a validation never
finds one repeated. -/

namespace Conformance

/-- A parameter that a text can declare: neither its name nor the description of its type is empty
or contains white space. -/
structure Parameter.Usable (p : Parameter) : Prop where
  name : Documentation.IsRun p.name.toList
  description : Documentation.IsRun p.description.toList

namespace Documentation

variable {s filler front rest : List Char} {p : Parameter} {parameters : List Parameter}

/-! ### Declarations one after another -/

theorem Declares.usable (h : Declares p front) : p.Usable := by
  cases h with
  | intro _ _ hType _ hName => exact ⟨hName, hType⟩

/-- A declaration begins with the sign of an optional parameter or with a marker. -/
theorem Declares.exists_mark (h : Declares p front) :
    ∃ t, front = mark p.optional ++ '@' :: t := by
  cases h with
  | intro marker => cases marker <;> exact ⟨_, rfl⟩

theorem declaration?_of_declares (h : Declares p front) (hRest : EndsRun rest) :
    declaration? (front ++ rest) = some (p, rest) :=
  declaration?_eq_some_iff.mpr ⟨front, h, rfl, hRest⟩

theorem declaration?_eq_none {c : Char} (hc : c ≠ '@') (hs : c = '?' → s.head? ≠ some '@') :
    declaration? (c :: s) = none := by
  by_contra hSome
  obtain ⟨⟨p, rest⟩, h⟩ := Option.ne_none_iff_exists'.mp hSome
  obtain ⟨front, hFront, hSplit, -⟩ := declaration?_eq_some_iff.mp h
  obtain ⟨t, rfl⟩ := hFront.exists_mark
  cases hOptional : p.optional with
  | true =>
    rw [hOptional] at hSplit
    obtain ⟨rfl, rfl⟩ := List.cons.inj hSplit
    exact hs rfl rfl
  | false =>
    rw [hOptional] at hSplit
    exact hc (List.cons.inj hSplit).1

theorem declarations_of_some (h : declaration? s = some (p, rest)) :
    declarations s = p :: declarations rest := by
  cases s with
  | nil => cases h
  | cons c s =>
    rw [declarations]
    split
    · next hFound =>
      rw [h] at hFound
      cases hFound
      rfl
    · next hFound =>
      rw [h] at hFound
      cases hFound

theorem declarations_of_none {c : Char} (h : declaration? (c :: s) = none) :
    declarations (c :: s) = declarations s := by
  rw [declarations]
  split
  · next hFound =>
    rw [h] at hFound
    cases hFound
  · rfl

/-- Filler without a marker is passed over.  It must not end in the sign of an optional parameter
where a marker follows. -/
theorem declarations_append_filler (hFiller : '@' ∉ filler)
    (hLast : filler.getLast? = some '?' → s.head? ≠ some '@') :
    declarations (filler ++ s) = declarations s := by
  induction filler with
  | nil => rfl
  | cons c rest ih =>
    rw [List.mem_cons, not_or] at hFiller
    have hNone : declaration? (c :: (rest ++ s)) = none := by
      refine declaration?_eq_none (Ne.symm hFiller.1) fun hSign hMarker => ?_
      cases rest with
      | nil => exact hLast (congrArg some hSign) hMarker
      | cons d rest => exact hFiller.2 (Option.some.inj hMarker ▸ List.mem_cons_self)
    rw [List.cons_append, declarations_of_none hNone]
    refine ih hFiller.2 fun hSign => hLast ?_
    cases rest with
    | nil => cases hSign
    | cons d rest => exact hSign

/-- A text that declares parameters one after another, with filler around them.  No filler contains
a marker's first character; that in front of a required parameter does not end in the sign of
an optional one; and behind a declaration there is white space or nothing at all. -/
inductive Renders : List Parameter → List Char → Prop where
  | filler {s : List Char} (hFiller : '@' ∉ s) : Renders [] s
  | declaration {p : Parameter} {parameters : List Parameter} {filler front rest : List Char}
      (hFiller : '@' ∉ filler) (hSign : p.optional = false → filler.getLast? ≠ some '?')
      (hFront : Declares p front) (hEnds : EndsRun rest) (later : Renders parameters rest) :
      Renders (p :: parameters) (filler ++ (front ++ rest))

theorem declarations_of_renders (h : Renders parameters s) : declarations s = parameters := by
  induction h with
  | filler hFiller =>
    have hAll := declarations_append_filler (s := []) hFiller fun _ hNone => by cases hNone
    rw [List.append_nil] at hAll
    rw [hAll, declarations]
  | @declaration p _ _ _ _ hFiller hSign hFront hEnds _ ih =>
    rw [declarations_append_filler hFiller,
      declarations_of_some (declaration?_of_declares hFront hEnds), ih]
    intro hLast hMarker
    obtain ⟨t, rfl⟩ := hFront.exists_mark
    cases hOptional : p.optional with
    | true =>
      rw [hOptional] at hMarker
      cases hMarker
    | false => exact hSign hOptional hLast

theorem usable_of_mem_declarations (h : p ∈ declarations s) : p.Usable := by
  fun_induction declarations s with
  | case1 => exact absurd h List.not_mem_nil
  | case2 c rest q after hFound ih =>
    obtain ⟨front, hFront, -⟩ := declaration?_eq_some_iff.mp hFound
    rcases List.mem_cons.mp h with rfl | hLater
    · exact hFront.usable
    · exact ih hLater
  | case3 c rest hNone ih => exact ih h

/-! ### Extraction -/

theorem extract_eq_ok_iff {text : String} : extract text = .ok parameters ↔
    declarations text.toList = parameters ∧ (parameters.map Parameter.name).Nodup := by
  unfold extract
  dsimp only
  split
  · next hNone =>
    rw [Parameter.repeatedNames_eq_nil_iff] at hNone
    constructor
    · intro h
      cases h
      exact ⟨rfl, hNone⟩
    · rintro ⟨rfl, -⟩
      rfl
  · next hRepeated =>
    refine iff_of_false nofun ?_
    rintro ⟨rfl, hNames⟩
    exact hRepeated (Parameter.repeatedNames_eq_nil_iff.mpr hNames)

/-- From a text that declares parameters of distinct names, just these are extracted. -/
theorem extract_of_renders {text : String} (hNames : (parameters.map Parameter.name).Nodup)
    (h : Renders parameters text.toList) : extract text = .ok parameters :=
  extract_eq_ok_iff.mpr ⟨declarations_of_renders h, hNames⟩

/-- A filler may end in the sign of an optional parameter where that sign follows, a type may be a
marker, dollars may be anywhere, and the text may end with a name. -/
theorem extract_of_renders_marks :
    extract "Sorts???@param @var $$x\n * by $y: @var ?int|$z $y?" =
      .ok [⟨"$x", "@var", true⟩, ⟨"y?", "?int|$z", false⟩] := by
  have hGap : IsGap [' '] := by decide
  have hFirst : Declares ⟨"$x", "@var", true⟩ "?@param @var $$x".toList :=
    .intro .param hGap (by decide) hGap (by decide)
  have hSecond : Declares ⟨"y?", "?int|$z", false⟩ "@var ?int|$z $y?".toList :=
    .intro .var hGap (by decide) hGap (by decide)
  have hLast : Renders [⟨"y?", "?int|$z", false⟩]
      ("\n * by $y: ".toList ++ ("@var ?int|$z $y?".toList ++ [])) :=
    .declaration (by decide) (by decide) hSecond endsRun_nil (.filler List.not_mem_nil)
  have hText : Renders [⟨"$x", "@var", true⟩, ⟨"y?", "?int|$z", false⟩]
      ("Sorts??".toList ++ ("?@param @var $$x".toList ++ _)) :=
    .declaration (by decide) (by decide) hFirst (endsRun_cons (by decide) _) hLast
  exact extract_of_renders (by decide) hText

end Documentation

namespace Checker

theorem validate_ne_duplicateParameter {parameters : List Parameter}
    (h : (parameters.map Parameter.name).Nodup) (c : Checker) (arguments : Arguments)
    (name : String) : c.validate parameters arguments ≠ .error (.duplicateParameter name) := by
  intro hError
  rw [validate_of_distinct h, map_eq_error_iff] at hError
  obtain ⟨_, _, _, _, -, -, -, hCause⟩ := mapM_validateParameter_eq_error_iff.mp hError
  cases hCause

end Checker

namespace Documentation

variable {parameters : List Parameter}

/-- What is extracted can be used: the names are distinct, no name or type is empty or contains
white space, and no validation finds a parameter repeated. -/
theorem usable_of_extract {text : String} (h : extract text = .ok parameters) :
    (parameters.map Parameter.name).Nodup ∧ (∀ p ∈ parameters, p.Usable) ∧
    ∀ (c : Checker) (arguments : Arguments) (name : String),
      c.validate parameters arguments ≠ .error (.duplicateParameter name) := by
  obtain ⟨rfl, hNames⟩ := extract_eq_ok_iff.mp h
  refine ⟨hNames, fun p hp => usable_of_mem_declarations hp, ?_⟩
  exact Checker.validate_ne_duplicateParameter hNames

/-- Two names may differ by a dollar or in the case of a letter. -/
theorem usable_of_extract_similar :
    (⟨"A", "?int", true⟩ : Parameter).Usable ∧
    ({} : Checker).validate [⟨"a", "int", false⟩, ⟨"$a", "$a", false⟩, ⟨"A", "?int", true⟩]
      [("$a", .null)] ≠ .error (.duplicateParameter "$a") := by
  have hExtract : extract "@var int $a\n@var $a $$a (see $A) ?@param ?int $A" =
      .ok [⟨"a", "int", false⟩, ⟨"$a", "$a", false⟩, ⟨"A", "?int", true⟩] := by
    decide +kernel
  obtain ⟨-, hUsable, hNever⟩ := usable_of_extract hExtract
  exact ⟨hUsable _ (by decide), hNever {} [("$a", .null)] "$a"⟩

end Documentation

end Conformance
