import Conformance.Documentation
import Mathlib.Data.List.TakeWhile

/-! How a declaration is written.  `Declares` tells it of a parameter and a text by putting the text
together and not by reading it.  What is found at the front of a text is a declaration in this
sense, with all of the run that its name begins, and nothing else is found. -/

namespace Conformance.Text

/-! ### Fronts of texts -/

section Fronts

variable {s rest : List Char} {p : Char → Bool}

/-- The longest front with a property is the one behind which the property fails. -/
theorem takeWhile_dropWhile_eq_iff {front : List Char} :
    s.takeWhile p = front ∧ s.dropWhile p = rest ↔
      s = front ++ rest ∧ (∀ c ∈ front, p c = true) ∧ ∀ c ∈ rest.head?, p c = false := by
  constructor
  · rintro ⟨rfl, rfl⟩
    refine ⟨List.takeWhile_append_dropWhile.symm, fun c hc => List.mem_takeWhile_imp hc, ?_⟩
    intro c hc
    have hNot := List.head?_dropWhile_not p s
    rw [hc] at hNot
    simpa using hNot
  · rintro ⟨rfl, hFront, hRest⟩
    rw [List.takeWhile_append_of_pos hFront, List.dropWhile_append_of_pos hFront]
    cases rest with
    | nil => simp
    | cons c rest => simp [hRest c rfl]

/-- What is left behind the characters with a property, at least one of them, at the front of a
text. -/
theorem afterFront_eq_some_iff {c : Char} :
    (if p c then some (s.dropWhile p) else none) = some rest ↔
      ∃ front, front ≠ [] ∧ (∀ d ∈ front, p d = true) ∧ c :: s = front ++ rest ∧
        ∀ d ∈ rest.head?, p d = false := by
  constructor
  · intro h
    split at h
    · next hc =>
      obtain ⟨hs, hFront, hRest⟩ := takeWhile_dropWhile_eq_iff.mp ⟨rfl, Option.some.inj h⟩
      refine ⟨c :: s.takeWhile p, List.cons_ne_nil _ _, ?_, congrArg (c :: ·) hs, hRest⟩
      exact List.forall_mem_cons.mpr ⟨hc, hFront⟩
    · cases h
  · rintro ⟨front, hne, hFront, hs, hRest⟩
    obtain ⟨d, front, rfl⟩ := List.exists_cons_of_ne_nil hne
    obtain ⟨rfl, rfl⟩ := List.cons.inj hs
    obtain ⟨hc, hTail⟩ := List.forall_mem_cons.mp hFront
    rw [if_pos hc]
    exact congrArg some (takeWhile_dropWhile_eq_iff.mpr ⟨rfl, hTail, hRest⟩).2

end Fronts

end Conformance.Text

namespace Conformance.Documentation

open Text

/-! ### Runs and gaps -/

/-- Text without white space, not empty. -/
structure IsRun (s : List Char) : Prop where
  nonempty : s ≠ []
  dense : ∀ c ∈ s, isBlank c = false

/-- White space, not empty. -/
structure IsGap (s : List Char) : Prop where
  nonempty : s ≠ []
  blank : ∀ c ∈ s, isBlank c = true

/-- A run ends here: the text is empty or begins with white space. -/
def EndsRun (s : List Char) : Prop := ∀ c ∈ s.head?, isBlank c = true

/-- A gap ends here: the text is empty or does not begin with white space. -/
def EndsGap (s : List Char) : Prop := ∀ c ∈ s.head?, isBlank c = false

variable {s rest : List Char}

theorem isRun_iff : IsRun s ↔ s ≠ [] ∧ s.all (!isBlank ·) = true := by
  simp only [List.all_eq_true, Bool.not_eq_true']
  exact ⟨fun h => ⟨h.nonempty, h.dense⟩, fun h => ⟨h.1, h.2⟩⟩

theorem isGap_iff : IsGap s ↔ s ≠ [] ∧ s.all isBlank = true := by
  rw [List.all_eq_true]
  exact ⟨fun h => ⟨h.nonempty, h.blank⟩, fun h => ⟨h.1, h.2⟩⟩

instance : Decidable (IsRun s) := decidable_of_iff' _ isRun_iff

instance : Decidable (IsGap s) := decidable_of_iff' _ isGap_iff

theorem IsRun.endsGap (h : IsRun s) (t : List Char) : EndsGap (s ++ t) := by
  obtain ⟨c, s, rfl⟩ := List.exists_cons_of_ne_nil h.nonempty
  intro d hd
  cases hd
  exact h.dense c List.mem_cons_self

theorem endsRun_nil : EndsRun [] := nofun

theorem endsRun_cons {c : Char} (hc : isBlank c = true) (s : List Char) : EndsRun (c :: s) := by
  intro d hd
  cases hd
  exact hc

theorem IsGap.endsRun (h : IsGap s) (t : List Char) : EndsRun (s ++ t) := by
  obtain ⟨c, s, rfl⟩ := List.exists_cons_of_ne_nil h.nonempty
  exact endsRun_cons (h.blank c List.mem_cons_self) (s ++ t)

/-! ### The parts of a declaration -/

theorem afterWord?_eq_some_iff {word : List Char} :
    afterWord? word s = some rest ↔ s = word ++ rest := by
  induction word generalizing s with
  | nil => exact Option.some_inj
  | cons w word ih =>
    cases s with
    | nil => simp [afterWord?]
    | cons c s =>
      rw [afterWord?, List.cons_append, List.cons.injEq, ← ih]
      split
      · next hc => exact (and_iff_right hc).symm
      · next hc => simp [hc]

theorem afterBlanks?_eq_some_iff :
    afterBlanks? s = some rest ↔ ∃ gap, IsGap gap ∧ s = gap ++ rest ∧ EndsGap rest := by
  cases s with
  | nil =>
    refine iff_of_false nofun ?_
    rintro ⟨gap, hGap, hNil, -⟩
    exact hGap.nonempty (List.append_eq_nil_iff.mp hNil.symm).1
  | cons c s =>
    rw [afterBlanks?, afterFront_eq_some_iff]
    constructor
    · rintro ⟨gap, hne, hBlank, hs, hRest⟩
      exact ⟨gap, ⟨hne, hBlank⟩, hs, hRest⟩
    · rintro ⟨gap, hGap, hs, hRest⟩
      exact ⟨gap, hGap.nonempty, hGap.blank, hs, hRest⟩

theorem run?_eq_some_iff {run : List Char} :
    run? s = some (run, rest) ↔ IsRun run ∧ s = run ++ rest ∧ EndsRun rest := by
  have hSplit : s.takeWhile (!isBlank ·) = run ∧ s.dropWhile (!isBlank ·) = rest ↔
      s = run ++ rest ∧ (∀ c ∈ run, isBlank c = false) ∧ EndsRun rest := by
    simp only [takeWhile_dropWhile_eq_iff, Bool.not_eq_true', Bool.not_eq_false', EndsRun]
  constructor
  · intro h
    unfold run? at h
    split at h
    · cases h
    · next hNe =>
      cases h
      obtain ⟨hs, hDense, hRest⟩ := hSplit.mp ⟨rfl, rfl⟩
      exact ⟨⟨hNe, hDense⟩, hs, hRest⟩
  · rintro ⟨hRun, hs, hRest⟩
    obtain ⟨hTake, hDrop⟩ := hSplit.mpr ⟨hs, hRun.dense, hRest⟩
    unfold run?
    rw [hTake, hDrop]
    split
    · exact absurd rfl hRun.nonempty
    · rfl

theorem typeAndName?_eq_some_iff {type name : List Char} :
    typeAndName? s = some (type, name, rest) ↔
      ∃ gap between, IsGap gap ∧ IsRun type ∧ IsGap between ∧ IsRun name ∧ EndsRun rest ∧
        s = gap ++ (type ++ (between ++ ('$' :: (name ++ rest)))) := by
  simp only [typeAndName?, bind, Option.bind_eq_some_iff, pure, Option.some.injEq]
  constructor
  · rintro ⟨a, ha, ⟨t, b⟩, hb, c, hc, d, hd, ⟨n, e⟩, he, hLast⟩
    cases hLast
    obtain ⟨gap, hGap, rfl, -⟩ := afterBlanks?_eq_some_iff.mp ha
    obtain ⟨hType, rfl, -⟩ := run?_eq_some_iff.mp hb
    obtain ⟨between, hBetween, rfl, -⟩ := afterBlanks?_eq_some_iff.mp hc
    obtain rfl := afterWord?_eq_some_iff.mp hd
    obtain ⟨hName, rfl, hRest⟩ := run?_eq_some_iff.mp he
    exact ⟨gap, between, hGap, hType, hBetween, hName, hRest, rfl⟩
  · rintro ⟨gap, between, hGap, hType, hBetween, hName, hRest, rfl⟩
    have hDollar : EndsGap ('$' :: (name ++ rest)) := by
      intro c hc
      cases hc
      decide
    refine ⟨_, afterBlanks?_eq_some_iff.mpr ⟨gap, hGap, rfl, hType.endsGap _⟩,
      (type, _), run?_eq_some_iff.mpr ⟨hType, rfl, hBetween.endsRun _⟩,
      _, afterBlanks?_eq_some_iff.mpr ⟨between, hBetween, rfl, hDollar⟩,
      _, afterWord?_eq_some_iff.mpr rfl,
      (name, rest), run?_eq_some_iff.mpr ⟨hName, rfl, hRest⟩, rfl⟩

/-- A word that begins a declaration. -/
inductive Marker where
  | var | param
deriving DecidableEq, Repr

def Marker.text : Marker → List Char
  | var => "@var".toList
  | param => "@param".toList

theorem afterMarker?_eq_some_iff :
    afterMarker? s = some rest ↔ ∃ marker : Marker, s = marker.text ++ rest := by
  rw [afterMarker?, Option.or_eq_some_iff, afterWord?_eq_some_iff, afterWord?_eq_some_iff]
  constructor
  · rintro (h | ⟨-, h⟩)
    · exact ⟨.var, h⟩
    · exact ⟨.param, h⟩
  · rintro ⟨marker, rfl⟩
    cases marker with
    | var => exact .inl rfl
    | param => exact .inr ⟨rfl, rfl⟩

/-! ### Declarations -/

/-- What stands before the marker: the sign of an optional parameter, or nothing. -/
def mark (optional : Bool) : List Char := if optional then ['?'] else []

/-- A text that declares a parameter: its sign, a marker, a gap, the type, another gap, and the name
behind a dollar. -/
inductive Declares (p : Parameter) : List Char → Prop where
  | intro (marker : Marker) {gap between : List Char} (hGap : IsGap gap)
      (hType : IsRun p.description.toList) (hBetween : IsGap between)
      (hName : IsRun p.name.toList) :
      Declares p (mark p.optional ++ (marker.text ++ (gap ++ (p.description.toList ++
        (between ++ '$' :: p.name.toList)))))

/-- Behind the marker, with the sign of an optional parameter or without, a type and a name are
wanted. -/
theorem declaration?_marked (optional : Bool) (marker : Marker) (s : List Char) :
    declaration? (mark optional ++ (marker.text ++ s)) =
      (typeAndName? s).bind fun (type, name, rest) =>
        some (⟨String.ofList name, String.ofList type, optional⟩, rest) := by
  have hMarker : afterMarker? (marker.text ++ s) = some s :=
    afterMarker?_eq_some_iff.mpr ⟨marker, rfl⟩
  have hSign : declaration? (mark optional ++ (marker.text ++ s)) =
      (afterMarker? (marker.text ++ s)).bind fun s =>
        (typeAndName? s).bind fun (type, name, rest) =>
          some (⟨String.ofList name, String.ofList type, optional⟩, rest) := by
    cases optional <;> cases marker <;> rfl
  rw [hSign, hMarker, Option.bind_some]

/-- The declaration at the front of a text is one that stands there, with a name that goes on until
white space or the end of the text. -/
theorem declaration?_eq_some_iff {p : Parameter} : declaration? s = some (p, rest) ↔
    ∃ front, Declares p front ∧ s = front ++ rest ∧ EndsRun rest := by
  constructor
  · intro h
    unfold declaration? at h
    split at h
    next optional marked hMarked =>
    have hs : s = mark optional ++ marked := by
      split at hMarked <;> cases hMarked <;> rfl
    simp only [bind, Option.bind_eq_some_iff, pure, Option.some.injEq] at h
    obtain ⟨after, hMarker, ⟨type, name, rest⟩, hParts, hLast⟩ := h
    obtain ⟨marker, rfl⟩ := afterMarker?_eq_some_iff.mp hMarker
    obtain ⟨gap, between, hGap, hType, hBetween, hName, hRest, rfl⟩ :=
      typeAndName?_eq_some_iff.mp hParts
    cases hLast
    have hFront := Declares.intro (p := ⟨String.ofList name, String.ofList type, optional⟩) marker
      hGap (by simpa using hType) hBetween (by simpa using hName)
    exact ⟨_, hFront, by simp [hs], hRest⟩
  · rintro ⟨front, hFront, rfl, hRest⟩
    cases hFront with
    | intro marker hGap hType hBetween hName =>
      have hParts := typeAndName?_eq_some_iff.mpr
        ⟨_, _, hGap, hType, hBetween, hName, hRest, rfl⟩
      simp [declaration?_marked, hParts]

end Conformance.Documentation
