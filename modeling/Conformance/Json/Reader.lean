import Conformance.Json.Fault

/-! Readers of JSON texts.  A reader takes something from the front of a text and leaves the rest;
what it leaves is always shorter, so that reading again and again comes to an end. -/

namespace Conformance.Json

/-- What reading gives: a result and the rest of the text, or a fault. -/
abbrev Reading (α : Type) := Except Fault (α × List Char)

/-- A reader. -/
structure Reader (α : Type) where
  read : List Char → Reading α
  shorter : ∀ {s a rest}, read s = .ok (a, rest) → rest.length < s.length

namespace Reader

variable {α β : Type}

def mapReading (f : α → β) : Reading α → Reading β
  | .ok (a, rest) => .ok (f a, rest)
  | .error fault => .error fault

theorem mapReading_eq_ok {f : α → β} {reading : Reading α} {b : β} {rest : List Char}
    (h : mapReading f reading = .ok (b, rest)) : ∃ a, reading = .ok (a, rest) ∧ f a = b := by
  cases reading with
  | error fault => cases h
  | ok p =>
    cases h
    exact ⟨p.1, rfl, rfl⟩

theorem mapError_eq_ok {f : Fault → Fault} {reading : Reading α} {p : α × List Char}
    (h : reading.mapError f = .ok p) : reading = .ok p := by
  cases reading with
  | error fault => cases h
  | ok q => exact h

def map (f : α → β) (r : Reader α) : Reader β where
  read s := mapReading f (r.read s)
  shorter h := match mapReading_eq_ok h with
    | ⟨_, hr, _⟩ => r.shorter hr

def mapFault (f : Fault → Fault) (r : Reader α) : Reader α where
  read s := (r.read s).mapError f
  shorter h := r.shorter (mapError_eq_ok h)

def fail (fault : List Char → Fault) : Reader α where
  read s := .error (fault s)
  shorter h := by cases h

end Reader

def isBlank (c : Char) : Bool := c = ' ' || c = '\t' || c = '\n' || c = '\r'

def skipBlanks (s : List Char) : List Char := s.dropWhile isBlank

theorem length_skipBlanks (s : List Char) : (skipBlanks s).length ≤ s.length :=
  (List.dropWhile_sublist isBlank).length_le

theorem length_of_skipBlanks {s rest : List Char} {c : Char} (h : skipBlanks s = c :: rest) :
    rest.length < s.length := by
  have := length_skipBlanks s
  rw [h, List.length_cons] at this
  omega

def afterWord : (word : List Char) → List Char → Except Fault (List Char)
  | [], s => .ok s
  | _ :: _, [] => .error (.here .endInValue [])
  | w :: word, c :: rest =>
    if c = w then afterWord word rest else .error (.next .wrongWord (c :: rest))

theorem length_of_afterWord {word s rest : List Char} (h : afterWord word s = .ok rest) :
    rest.length ≤ s.length := by
  induction word generalizing s with
  | nil => simp_all [afterWord]
  | cons w word ih =>
    cases s with
    | nil => simp [afterWord] at h
    | cons c s =>
      simp only [afterWord] at h
      split at h
      · exact Nat.le_succ_of_le (ih h)
      · cases h

end Conformance.Json
