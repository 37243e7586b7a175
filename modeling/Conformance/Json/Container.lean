import Conformance.Json.Reader

/-! Lists and objects in JSON: what stands between the brackets, whatever the items are.  Items are
separated by commas, and none stands before the closing bracket. -/

namespace Conformance.Json

/-- What comes next inside brackets. -/
inductive Slot where
  | close (rest : List Char)
  /-- An item; the rest begins with it, or behind the quote that opens its key. -/
  | item (rest : List Char)

def Slot.rest : Slot → List Char
  | close rest => rest
  | item rest => rest

/-- The faults that depend on whether the document is wanted or passed over. -/
structure Punctuation where
  /-- A bracket follows a comma. -/
  bracketAfterComma : Cause
  /-- A brace follows a comma. -/
  braceAfterComma : Cause
  /-- The text ends after a comma in an object. -/
  endAfterComma : Cause

namespace Punctuation

def keep : Punctuation := ⟨.trailingComma, .trailingComma, .endInValue⟩

def skip : Punctuation := ⟨.noValue, .keyNotString, .endInObject⟩

def elementSlot (p : Punctuation) (first : Bool) (s : List Char) : Except Fault Slot :=
  match skipBlanks s with
  | [] => .error (.next .endInList [])
  | c :: rest =>
    if c = ']' then .ok (.close rest)
    else if first then .ok (.item (c :: rest))
    else if c = ',' then
      match skipBlanks rest with
      | [] => .error (.next .endInValue [])
      | d :: after =>
        if d = ']' then .error (.next p.bracketAfterComma (d :: after))
        else .ok (.item (d :: after))
    else .error (.next .noListSeparator (c :: rest))

def memberSlot (p : Punctuation) (first : Bool) (s : List Char) : Except Fault Slot :=
  match skipBlanks s with
  | [] => .error (.next .endInObject [])
  | c :: rest =>
    if c = '\x7d' then .ok (.close rest)
    else if first then
      if c = '"' then .ok (.item rest) else .error (.next .keyNotString (c :: rest))
    else if c = ',' then
      match skipBlanks rest with
      | [] => .error (.next p.endAfterComma [])
      | d :: after =>
        if d = '"' then .ok (.item after)
        else if d = '\x7d' then .error (.next p.braceAfterComma (d :: after))
        else .error (.next .keyNotString (d :: after))
    else .error (.next .noObjectSeparator (c :: rest))

theorem length_of_elementSlot {p : Punctuation} {first : Bool} {s : List Char} {slot : Slot}
    (h : p.elementSlot first s = .ok slot) : slot.rest.length ≤ s.length := by
  unfold elementSlot at h
  split at h
  · cases h
  · next hs =>
    have h1 := length_of_skipBlanks hs
    split at h
    · cases h
      exact Nat.le_of_lt h1
    · split at h
      · cases h
        exact h1
      · split at h
        · split at h
          · cases h
          · next hr =>
            have h2 := length_of_skipBlanks hr
            split at h <;> cases h
            simp only [Slot.rest, List.length_cons]
            omega
        · cases h

theorem length_of_elementSlot_close {p : Punctuation} {first : Bool} {s rest : List Char}
    (h : p.elementSlot first s = .ok (.close rest)) : rest.length < s.length := by
  unfold elementSlot at h
  split at h
  · cases h
  · next hs =>
    split at h
    · cases h
      exact length_of_skipBlanks hs
    · split at h
      · cases h
      · split at h
        · split at h
          · cases h
          · split at h <;> cases h
        · cases h

theorem length_of_memberSlot {p : Punctuation} {first : Bool} {s : List Char} {slot : Slot}
    (h : p.memberSlot first s = .ok slot) : slot.rest.length < s.length := by
  unfold memberSlot at h
  split at h
  · cases h
  · next hs =>
    have h1 := length_of_skipBlanks hs
    split at h
    · cases h
      exact h1
    · split at h
      · split at h <;> cases h
        exact h1
      · split at h
        · split at h
          · cases h
          · next hr =>
            have h2 := length_of_skipBlanks hr
            split at h
            · cases h
              simp only [Slot.rest]
              omega
            · split at h <;> cases h
        · cases h

variable {α κ ρ : Type}

/-- Reads the elements of a list from the one at an index on, through the closing bracket. -/
def readElements (p : Punctuation) (item : Reader α) (index : Nat) (s : List Char) :
    Reading (List α) :=
  match _hs : p.elementSlot (index = 0) s with
  | .error fault => .error fault
  | .ok (.close rest) => .ok ([], rest)
  | .ok (.item start) =>
    match _hr : item.read start with
    | .error fault => .error (fault.within (.index index))
    | .ok (a, rest) =>
      match p.readElements item (index + 1) rest with
      | .error fault => .error fault
      | .ok (as, rest) => .ok (a :: as, rest)
termination_by s.length
decreasing_by
  have h1 := item.shorter _hr
  have h2 := length_of_elementSlot _hs
  simp only [Slot.rest] at h2
  omega

theorem length_of_readElements {p : Punctuation} {item : Reader α} {index : Nat}
    {s rest : List Char} {as : List α} (h : p.readElements item index s = .ok (as, rest)) :
    rest.length < s.length := by
  fun_induction readElements p item index s generalizing as rest with
  | case1 => cases h
  | case2 _ _ _ hs =>
    cases h
    exact length_of_elementSlot_close hs
  | case3 => cases h
  | case4 => cases h
  | case5 index s start hs a after hr as' after' hrest ih =>
    cases h
    have h1 := item.shorter hr
    have h2 := length_of_elementSlot hs
    have h3 := ih hrest
    simp only [Slot.rest] at h2
    omega

/-- Reads the members of an object, through the closing brace.  Each member changes what has been
gathered before it; how its colon and value are read may depend on that. -/
def readMembers (p : Punctuation) (key : Reader κ) (member : ρ → κ → Reader ρ) (first : Bool)
    (gathered : ρ) (s : List Char) : Reading ρ :=
  match _hs : p.memberSlot first s with
  | .error fault => .error (fault.within .someMember)
  | .ok (.close rest) => .ok (gathered, rest)
  | .ok (.item start) =>
    match _hk : key.read start with
    | .error fault => .error (fault.within .someMember)
    | .ok (k, rest) =>
      match _hm : (member gathered k).read rest with
      | .error fault => .error fault
      | .ok (gathered, rest) => p.readMembers key member false gathered rest
termination_by s.length
decreasing_by
  have h1 := length_of_memberSlot _hs
  have h2 := key.shorter _hk
  have h3 := (member _ k).shorter _hm
  simp only [Slot.rest] at h1
  omega

theorem length_of_readMembers {p : Punctuation} {key : Reader κ} {member : ρ → κ → Reader ρ}
    {first : Bool} {gathered result : ρ} {s rest : List Char}
    (h : p.readMembers key member first gathered s = .ok (result, rest)) :
    rest.length < s.length := by
  fun_induction readMembers p key member first gathered s with
  | case1 => cases h
  | case2 _ _ _ _ hs =>
    cases h
    exact length_of_memberSlot hs
  | case3 => cases h
  | case4 => cases h
  | case5 first gathered s start hs k rest1 hk gathered' rest2 hm ih =>
    have h1 := length_of_memberSlot hs
    have h2 := key.shorter hk
    have h3 := (member _ k).shorter hm
    have h4 := ih h
    simp only [Slot.rest] at h1
    omega

end Punctuation

namespace Reader

variable {α : Type}

/-- Reads a value behind the colon that must follow a key.  The value lies one step further in. -/
def readAfterColon (value : Reader α) (step : Step) (s : List Char) : Reading α :=
  match skipBlanks s with
  | [] => .error (.next .endInObject [])
  | c :: rest =>
    if c = ':' then (value.mapFault (.within step)).read rest
    else .error (.next .noColon (c :: rest))

theorem length_of_readAfterColon {step : Step} {value : Reader α} {s rest : List Char} {a : α}
    (h : value.readAfterColon step s = .ok (a, rest)) : rest.length < s.length := by
  unfold readAfterColon at h
  split at h
  · cases h
  · next hs =>
    have h1 := length_of_skipBlanks hs
    split at h
    · have h2 := (value.mapFault (.within step)).shorter h
      omega
    · cases h

def afterColon (step : Step) (value : Reader α) : Reader α :=
  ⟨value.readAfterColon step, length_of_readAfterColon⟩

end Reader

end Conformance.Json
