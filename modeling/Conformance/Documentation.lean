import Conformance.Description.Grammar
import Conformance.Validation

/-! Parameters declared in documentation text.  A declaration is `@var` or `@param`, white space, a
type, white space, `$` and a name; type and name are runs without white space, each as long as
possible.  A `?` right before the marker makes the parameter optional.  Declarations are found
from the left, each behind the one before it; all other text is passed over. -/

namespace Conformance.Documentation

def afterWord? : (word : List Char) → List Char → Option (List Char)
  | [], s => some s
  | _ :: _, [] => none
  | w :: word, c :: rest => if c = w then afterWord? word rest else none

def afterBlanks? : List Char → Option (List Char)
  | c :: rest => if Text.isBlank c then some (rest.dropWhile Text.isBlank) else none
  | [] => none

/-- A run without white space that is not empty, and what follows it. -/
def run? (s : List Char) : Option (List Char × List Char) :=
  match s.takeWhile (!Text.isBlank ·) with
  | [] => none
  | run => some (run, s.dropWhile (!Text.isBlank ·))

/-- The type and the name at the front of a text, and what follows them. -/
def typeAndName? (s : List Char) : Option (List Char × List Char × List Char) := do
  let (type, rest) ← run? (← afterBlanks? s)
  let (name, rest) ← run? (← afterWord? ['$'] (← afterBlanks? rest))
  return (type, name, rest)

def afterMarker? (s : List Char) : Option (List Char) :=
  (afterWord? "@var".toList s).or (afterWord? "@param".toList s)

/-- The declaration at the front of a text, and what follows it. -/
def declaration? (s : List Char) : Option (Parameter × List Char) :=
  let (optional, marked) := match s with
    | '?' :: rest => (true, rest)
    | s => (false, s)
  do
    let (type, name, rest) ← typeAndName? (← afterMarker? marked)
    return (⟨String.ofList name, String.ofList type, optional⟩, rest)

theorem length_of_afterWord? {word s rest : List Char} (h : afterWord? word s = some rest) :
    rest.length + word.length = s.length := by
  induction word generalizing s with
  | nil => simp_all [afterWord?]
  | cons w word ih =>
    cases s with
    | nil => simp [afterWord?] at h
    | cons c s =>
      simp only [afterWord?] at h
      split at h
      · have := ih h
        simp only [List.length_cons]
        omega
      · cases h

theorem length_of_afterBlanks? {s rest : List Char} (h : afterBlanks? s = some rest) :
    rest.length < s.length := by
  cases s with
  | nil => simp [afterBlanks?] at h
  | cons c s =>
    simp only [afterBlanks?] at h
    split at h
    · cases h
      have := (List.dropWhile_sublist Text.isBlank (l := s)).length_le
      simp only [List.length_cons]
      omega
    · cases h

theorem length_of_run? {s run rest : List Char} (h : run? s = some (run, rest)) :
    rest.length < s.length := by
  unfold run? at h
  split at h
  · cases h
  · next _ hne =>
    cases h
    have hs := congrArg List.length
      (List.takeWhile_append_dropWhile (p := (!Text.isBlank ·)) (l := s))
    have := List.length_pos_iff.2 hne
    simp only [List.length_append] at hs
    omega

theorem length_of_typeAndName? {s type name rest : List Char}
    (h : typeAndName? s = some (type, name, rest)) : rest.length < s.length := by
  simp only [typeAndName?, bind, Option.bind_eq_some_iff, pure, Option.some.injEq] at h
  obtain ⟨a, ha, ⟨t, b⟩, hb, c, hc, d, hd, ⟨n, e⟩, he, hlast⟩ := h
  cases hlast
  dsimp only at hc he ⊢
  have h1 := length_of_afterBlanks? ha
  have h2 := length_of_run? hb
  have h3 := length_of_afterBlanks? hc
  have h4 := length_of_afterWord? hd
  have h5 := length_of_run? he
  omega

theorem length_of_afterMarker? {s rest : List Char} (h : afterMarker? s = some rest) :
    rest.length < s.length := by
  rcases Option.or_eq_some_iff.1 h with h | ⟨-, h⟩ <;>
    · have := length_of_afterWord? h
      simp at this
      omega

theorem length_of_declaration? {s : List Char} {p : Parameter} {rest : List Char}
    (h : declaration? s = some (p, rest)) : rest.length < s.length := by
  unfold declaration? at h
  split at h
  next optional marked hm =>
    simp only [bind, Option.bind_eq_some_iff, pure, Option.some.injEq] at h
    obtain ⟨a, ha, ⟨t, n, b⟩, hb, hlast⟩ := h
    cases hlast
    dsimp only
    have h1 := length_of_afterMarker? ha
    have h2 := length_of_typeAndName? hb
    have h3 : marked.length ≤ s.length := by
      split at hm <;> cases hm <;> simp
    omega

def declarations (s : List Char) : List Parameter :=
  match s with
  | [] => []
  | c :: rest =>
    match _h : declaration? (c :: rest) with
    | some (p, after) => p :: declarations after
    | none => declarations rest
termination_by s.length
decreasing_by
  · exact length_of_declaration? _h
  · simp

/-- The names that were declared more than once, once for each repetition. -/
structure DuplicateDefinitions where
  names : List String
deriving DecidableEq, Repr

def DuplicateDefinitions.message (e : DuplicateDefinitions) : String :=
  "Multiple definitions for: " ++ ", ".intercalate e.names

/-- The parameters declared in a text, provided that no name is declared twice. -/
def extract (text : String) : Except DuplicateDefinitions (List Parameter) :=
  let parameters := declarations text.toList
  match Parameter.repeatedNames parameters with
  | [] => .ok parameters
  | names => .error ⟨names⟩

end Conformance.Documentation
