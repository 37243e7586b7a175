import Conformance.Json.Reader

/-! Strings in JSON.  Every character stands for itself, except that a backslash begins an escape, a
double quote ends the string, and the 32 control characters of ASCII may not occur.  A character
beyond sixteen bits may be escaped as two surrogates, which may not stand otherwise.  A string
that is passed over is held to the same rules but for the surrogates. -/

namespace Conformance.Json

def hexDigit? (c : Char) : Option Nat :=
  if '0' ≤ c && c ≤ '9' then some (c.toNat - '0'.toNat)
  else if 'a' ≤ c && c ≤ 'f' then some (c.toNat - 'a'.toNat + 10)
  else if 'A' ≤ c && c ≤ 'F' then some (c.toNat - 'A'.toNat + 10)
  else none

def hexNumber? (a b c d : Char) : Option Nat := do
  return (((← hexDigit? a) * 16 + (← hexDigit? b)) * 16 + (← hexDigit? c)) * 16 + (← hexDigit? d)

/-- Reads four hexadecimal digits.  Four bytes are taken before they are looked at. -/
def readUnit (s : List Char) : Reading Nat :=
  if byteCount s < 4 then .error (.here .endInString [])
  else
    let malformed : Fault := ⟨.badEscape, byteCount s - 4, []⟩
    match s with
    | a :: b :: c :: d :: rest => match hexNumber? a b c d with
      | some n => .ok (n, rest)
      | none => .error malformed
    | _ => .error malformed

def isFirstSurrogate (n : Nat) : Bool := 0xD800 ≤ n && n ≤ 0xDBFF

def isSecondSurrogate (n : Nat) : Bool := 0xDC00 ≤ n && n ≤ 0xDFFF

def surrogatePair (n m : Nat) : Char := Char.ofNat ((n - 0xD800) * 0x400 + (m - 0xDC00) + 0x10000)

/-- Reads the second surrogate, with its backslash, behind the first one. -/
def readSecond (n : Nat) : List Char → Reading Char
  | [] => .error (.here .endInString [])
  | '\\' :: [] => .error (.here .endInString [])
  | '\\' :: 'u' :: rest =>
    match readUnit rest with
    | .error fault => .error fault
    | .ok (m, rest) =>
      if isSecondSurrogate m then .ok (surrogatePair n m, rest)
      else .error (.here .loneSurrogate rest)
  | '\\' :: rest => .error (.next .halfPair rest)
  | rest => .error (.next .halfPair rest)

def readUnits (s : List Char) : Reading Char :=
  match readUnit s with
  | .error fault => .error fault
  | .ok (n, rest) =>
    if isSecondSurrogate n then .error (.here .loneSurrogate rest)
    else if isFirstSurrogate n then readSecond n rest
    else .ok (Char.ofNat n, rest)

/-- The character that a letter stands for behind a backslash. -/
def shortEscape? (c : Char) : Option Char :=
  if c = '"' || c = '\\' || c = '/' then some c
  else if c = 'b' then some '\x08'
  else if c = 'f' then some '\x0c'
  else if c = 'n' then some '\n'
  else if c = 'r' then some '\r'
  else if c = 't' then some '\t'
  else none

/-- Reads an escape behind its backslash, the units of a code point by `units`. -/
def readEscape {α : Type} (short : Char → α) (units : List Char → Reading α) :
    List Char → Reading α
  | [] => .error (.here .endInString [])
  | c :: rest =>
    match shortEscape? c with
    | some e => .ok (short e, rest)
    | none => if c = 'u' then units rest else .error (.next .badEscape (c :: rest))

theorem length_of_readUnit {s rest : List Char} {n : Nat} (h : readUnit s = .ok (n, rest)) :
    rest.length < s.length := by
  unfold readUnit at h
  split at h
  · cases h
  · dsimp only at h
    split at h
    · split at h <;> cases h
      simp only [List.length_cons]
      omega
    · cases h

theorem length_of_readSecond {n : Nat} {s rest : List Char} {c : Char}
    (h : readSecond n s = .ok (c, rest)) : rest.length < s.length := by
  unfold readSecond at h
  split at h
  · cases h
  · cases h
  · split at h
    · cases h
    · next hu =>
      have := length_of_readUnit hu
      split at h
      · simp only [Except.ok.injEq, Prod.mk.injEq] at h
        rw [← h.2]
        simp only [List.length_cons]
        omega
      · cases h
  · cases h
  · cases h

theorem length_of_readUnits {s rest : List Char} {c : Char} (h : readUnits s = .ok (c, rest)) :
    rest.length < s.length := by
  unfold readUnits at h
  split at h
  · cases h
  · next hu =>
    have h1 := length_of_readUnit hu
    split at h
    · cases h
    · split at h
      · have h2 := length_of_readSecond h
        omega
      · cases h
        exact h1

/-- How a string is read: what a character becomes, how the units of an escape are read, and the
fault of a control character. -/
structure StringRule (α : Type) where
  plain : Char → α
  units : Reader α
  control : List Char → Fault

def StringRule.keep : StringRule Char where
  plain := id
  units := ⟨readUnits, length_of_readUnits⟩
  control := .next .controlCharacter

def StringRule.skip : StringRule Unit where
  plain _ := ()
  units := Reader.map (fun _ => ()) ⟨readUnit, length_of_readUnit⟩
  control := .here .controlCharacter

namespace StringRule

variable {α : Type}

theorem length_of_readEscape (rule : StringRule α) {s rest : List Char} {a : α}
    (h : readEscape rule.plain rule.units.read s = .ok (a, rest)) : rest.length < s.length := by
  unfold readEscape at h
  split at h
  · cases h
  · split at h
    · cases h
      simp
    · split at h
      · exact Nat.lt_succ_of_lt (rule.units.shorter h)
      · cases h

/-- Reads a string behind its opening quote, through the closing one. -/
def readString (rule : StringRule α) (s : List Char) : Reading (List α) :=
  match s with
  | [] => .error (.here .endInString [])
  | c :: rest =>
    if c = '"' then .ok ([], rest)
    else if c = '\\' then
      match _h : readEscape rule.plain rule.units.read rest with
      | .error fault => .error fault
      | .ok (a, after) =>
        match rule.readString after with
        | .error fault => .error fault
        | .ok (as, after) => .ok (a :: as, after)
    else if c.toNat < 0x20 then .error (rule.control (c :: rest))
    else
      match rule.readString rest with
      | .error fault => .error fault
      | .ok (as, after) => .ok (rule.plain c :: as, after)
termination_by s.length
decreasing_by
  · exact Nat.lt_succ_of_lt (rule.length_of_readEscape _h)
  · simp

theorem length_of_readString (rule : StringRule α) {s rest : List Char} {as : List α}
    (h : rule.readString s = .ok (as, rest)) : rest.length < s.length := by
  fun_induction readString rule s generalizing as rest with
  | case1 => cases h
  | case2 => cases h; simp
  | case3 => cases h
  | case4 => cases h
  | case5 tail a after he as' after' hs _ ih =>
    cases h
    have h1 := rule.length_of_readEscape he
    have h2 := ih hs
    simp only [List.length_cons]
    omega
  | case6 => cases h
  | case7 => cases h
  | case8 c tail _ _ _ as' after' hs ih =>
    cases h
    have h2 := ih hs
    simp only [List.length_cons]
    omega

def reader (rule : StringRule α) : Reader (List α) := ⟨rule.readString, rule.length_of_readString⟩

end StringRule

end Conformance.Json
