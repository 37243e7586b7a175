/-! Unions.  A description is cut at each `|`, except that a span `w<x>` is kept whole: `w` is a run
free of `<` and `|`, `x` a run free of `>`, neither empty.  Spans are found from the left, and
what stands between two of them is a piece of its own; empty pieces are dropped. -/

namespace Conformance.Description

def inSpanName (c : Char) : Bool := c ≠ '<' && c ≠ '|'

/-- The span at the front of a text, and what follows it. -/
def span? (s : List Char) : Option (List Char × List Char) :=
  let name := s.takeWhile inSpanName
  match s.dropWhile inSpanName with
  | '<' :: body =>
    let inner := body.takeWhile (· ≠ '>')
    match body.dropWhile (· ≠ '>') with
    | '>' :: rest =>
      if name.isEmpty || inner.isEmpty then none else some (name ++ '<' :: (inner ++ ['>']), rest)
    | _ => none
  | _ => none

theorem span?_eq_some {s w rest : List Char} (h : span? s = some (w, rest)) : s = w ++ rest := by
  unfold span? at h
  have hs := List.takeWhile_append_dropWhile (p := inSpanName) (l := s)
  split at h
  · next body hbody =>
    have hb := List.takeWhile_append_dropWhile (p := (· ≠ '>')) (l := body)
    split at h
    · next after hafter =>
      dsimp only at h
      split at h
      · cases h
      · cases h
        rw [hbody] at hs
        rw [hafter] at hb
        rw [List.append_assoc, List.cons_append, List.append_assoc, List.singleton_append, hb]
        exact hs.symm
    · cases h
  · cases h

theorem span?_ne_nil {s w rest : List Char} (h : span? s = some (w, rest)) : w ≠ [] := by
  unfold span? at h
  split at h
  · split at h
    · dsimp only at h
      split at h
      · cases h
      · cases h
        simp
    · cases h
  · cases h

theorem length_of_span? {s w rest : List Char} (h : span? s = some (w, rest)) :
    rest.length < s.length := by
  have hw := List.length_pos_iff.2 (span?_ne_nil h)
  rw [span?_eq_some h, List.length_append]
  omega

def addPiece (piece : List Char) (pieces : List (List Char)) : List (List Char) :=
  if piece.isEmpty then pieces else piece :: pieces

/-- The text in front of the first span or `|`, and the pieces from there on. -/
def cut (s : List Char) : List Char × List (List Char) :=
  match s with
  | [] => ([], [])
  | c :: rest =>
    match _h : span? (c :: rest) with
    | some (span, after) =>
      let (gap, pieces) := cut after
      ([], span :: addPiece gap pieces)
    | none =>
      let (gap, pieces) := cut rest
      if c = '|' then ([], addPiece gap pieces) else (c :: gap, pieces)
termination_by s.length
decreasing_by
  · exact length_of_span? _h
  · simp

def pieces (s : List Char) : List (List Char) :=
  let (gap, rest) := cut s
  addPiece gap rest

/-- The piece `t[]`, with `t` free of `[` and not empty, stands for `array<t>`. -/
def expandShorthand (piece : List Char) : List Char :=
  let element := piece.takeWhile (· ≠ '[')
  if piece.dropWhile (· ≠ '[') = ['[', ']'] && !element.isEmpty then
    "array<".toList ++ element ++ ['>']
  else piece

def alternatives (description : String) : List String :=
  (pieces description.toList).map fun piece => String.ofList (expandShorthand piece)

end Conformance.Description
