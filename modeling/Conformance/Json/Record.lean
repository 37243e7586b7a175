import Conformance.Json.Value

/-! Records in JSON.  A record is written as an object, its fields in any order, or as a list, its
fields in their own order.  What a field may hold is checked as soon as its value is read; which
fields are missing is found out at the end. -/

namespace Conformance.Json

namespace Reader

variable {α : Type}

/-- Reads a value without brackets and accepts it or finds fault with it.  Of a list or an object
nothing is taken. -/
def readTyped (expected : String) (accept : Document → Except Cause α) (s : List Char) :
    Reading α :=
  match skipBlanks s with
  | [] => .error (.next .endInValue [])
  | c :: rest =>
    if c = '[' then .error (.here (.wrongType .sequence expected) (c :: rest))
    else if c = '\x7b' then .error (.here (.wrongType .map expected) (c :: rest))
    else match Document.scalarReader.read (c :: rest) with
      | .error fault => .error fault
      | .ok (d, rest) => match accept d with
        | .ok a => .ok (a, rest)
        | .error cause => .error (.here cause rest)

theorem length_of_readTyped {expected : String} {accept : Document → Except Cause α}
    {s rest : List Char} {a : α} (h : readTyped expected accept s = .ok (a, rest)) :
    rest.length < s.length := by
  unfold readTyped at h
  split at h
  · cases h
  · next hs =>
    have h1 := length_of_skipBlanks hs
    split at h
    · cases h
    · split at h
      · cases h
      · split at h
        · cases h
        · next hr =>
          have h2 := Document.scalarReader.shorter hr
          split at h <;> cases h
          simp only [List.length_cons] at h2
          omega

def typed (expected : String) (accept : Document → Except Cause α) : Reader α :=
  ⟨readTyped expected accept, length_of_readTyped⟩

def mistyped (expected : String) : Reader α :=
  typed expected fun d => .error (.wrongType d.found expected)

def string : Reader String := typed "a string" fun
  | .string s => .ok s
  | d => .error (.wrongType d.found "a string")

def bool : Reader Bool := typed "a boolean" fun
  | .bool b => .ok b
  | d => .error (.wrongType d.found "a boolean")

/-- Reads an integer from zero to the greatest of 64 bits. -/
def size : Reader Nat := typed "usize" fun
  | .integer i =>
    if 0 ≤ i then .ok i.toNat else .error (.wrongValue (.integer i) "usize")
  | d => .error (.wrongType d.found "usize")

end Reader

/-- A field of a record, while the record is gathered as a `ρ`. -/
structure Field (ρ : Type) where
  name : String
  /-- Whether the field has been read. -/
  isSet : ρ → Bool
  /-- Reads the field's value. -/
  value : ρ → Reader ρ

/-- What becomes of a field with another name. -/
inductive OtherFields where
  | skipped
  | refused
deriving DecidableEq, Repr

/-- The shape of a record that is gathered as a `ρ` and becomes an `α`. -/
structure Shape (ρ α : Type) where
  /-- What the record is called when something else is found. -/
  title : String
  /-- The fields in their own order. -/
  fields : List (Field ρ)
  others : OtherFields
  /-- The record before any field is read. -/
  blank : ρ
  /-- The finished record, or the name of the first field that is missing. -/
  finish : ρ → Except String α

namespace Shape

variable {ρ α : Type}

/-- The rest behind the brace that closes an object, as far as it follows. -/
def afterBrace (s : List Char) : List Char :=
  match skipBlanks s with
  | [] => []
  | c :: rest => if c = '\x7d' then rest else c :: rest

def member (shape : Shape ρ α) (gathered : ρ) (key : String) : Reader ρ :=
  match shape.fields.find? (·.name = key) with
  | some field =>
    if field.isSet gathered then .fail fun s => .here (.duplicateField key) (afterBrace s)
    else (field.value gathered).afterColon (.key key)
  | none =>
    match shape.others with
    | .skipped => (skipper.map fun _ => gathered).afterColon (.key key)
    | .refused => .fail fun s =>
      Fault.within (.key key)
        (.here (.unknownField key (shape.fields.map Field.name)) (afterBrace s))

/-- Reads a record written as an object, behind the brace. -/
def readObject (shape : Shape ρ α) (s : List Char) : Reading α :=
  match Punctuation.keep.readMembers Manner.keep.string shape.member true shape.blank s with
  | .error fault => .error fault
  | .ok (gathered, rest) => match shape.finish gathered with
    | .ok record => .ok (record, rest)
    | .error name => .error (.here (.missingField name) rest)

def closeList (s : List Char) : Except Fault (List Char) :=
  match skipBlanks s with
  | [] => .error (.next .endInList [])
  | c :: rest =>
    if c = ']' then .ok rest
    else if c = ',' then
      match skipBlanks rest with
      | [] => .error (.next .trailingText [])
      | d :: after =>
        .error (.next (if d = ']' then .trailingComma else .trailingText) (d :: after))
    else .error (.next .trailingText (c :: rest))

/-- Reads a record written as a list, from the field at an index on. -/
def readList (shape : Shape ρ α) (index : Nat) (gathered : ρ) :
    List (Field ρ) → List Char → Reading α
  | [], s =>
    match closeList s with
    | .error fault => .error fault
    | .ok rest => match shape.finish gathered with
      | .ok record => .ok (record, rest)
      | .error name => .error (.here (.missingField name) rest)
  | field :: fields, s =>
    match Punctuation.keep.elementSlot (index = 0) s with
    | .error fault => .error fault
    | .ok (.close rest) => match shape.finish gathered with
      | .ok record => .ok (record, rest)
      | .error _ => .error (.here (.wrongLength index
          s!"{shape.title} with {shape.fields.length} elements") rest)
    | .ok (.item start) => match (field.value gathered).read start with
      | .error fault => .error (fault.within (.index index))
      | .ok (gathered, rest) => readList shape (index + 1) gathered fields rest

theorem length_of_readObject {shape : Shape ρ α} {s rest : List Char} {a : α}
    (h : shape.readObject s = .ok (a, rest)) : rest.length < s.length := by
  unfold readObject at h
  split at h
  · cases h
  · next hm =>
    split at h <;> cases h
    exact Punctuation.length_of_readMembers hm

theorem length_of_closeList {s rest : List Char} (h : closeList s = .ok rest) :
    rest.length < s.length := by
  unfold closeList at h
  split at h
  · cases h
  · next hs =>
    split at h
    · cases h
      exact length_of_skipBlanks hs
    · split at h
      · split at h <;> cases h
      · cases h

theorem length_of_readList {shape : Shape ρ α} {fields : List (Field ρ)} {index : Nat}
    {gathered : ρ} {s rest : List Char} {a : α}
    (h : shape.readList index gathered fields s = .ok (a, rest)) : rest.length < s.length := by
  induction fields generalizing index gathered s with
  | nil =>
    simp only [readList] at h
    split at h
    · cases h
    · next hc =>
      split at h <;> cases h
      exact length_of_closeList hc
  | cons field fields ih =>
    simp only [readList] at h
    split at h
    · cases h
    · next hs =>
      split at h <;> cases h
      exact Punctuation.length_of_elementSlot_close hs
    · next hs =>
      split at h
      · cases h
      · next hv =>
        have h1 := Punctuation.length_of_elementSlot hs
        have h2 := (field.value gathered).shorter hv
        have h3 := ih h
        simp only [Slot.rest] at h1
        omega

def readRecord (shape : Shape ρ α) (s : List Char) : Reading α :=
  match skipBlanks s with
  | [] => .error (.next .endInValue [])
  | c :: rest =>
    if c = '\x7b' then shape.readObject rest
    else if c = '[' then shape.readList 0 shape.blank shape.fields rest
    else (Reader.mistyped shape.title).read (c :: rest)

theorem length_of_readRecord {shape : Shape ρ α} {s rest : List Char} {a : α}
    (h : shape.readRecord s = .ok (a, rest)) : rest.length < s.length := by
  unfold readRecord at h
  split at h
  · cases h
  · next hs =>
    have h1 := length_of_skipBlanks hs
    split at h
    · exact Nat.lt_trans (length_of_readObject h) h1
    · split at h
      · exact Nat.lt_trans (length_of_readList h) h1
      · have h2 := (Reader.mistyped shape.title).shorter h
        simp only [List.length_cons] at h2
        omega

def reader (shape : Shape ρ α) : Reader α := ⟨shape.readRecord, length_of_readRecord⟩

end Shape

namespace Reader

variable {α : Type}

def readSequence (item : Reader α) (s : List Char) : Reading (List α) :=
  match skipBlanks s with
  | [] => .error (.next .endInValue [])
  | c :: rest =>
    if c = '[' then Punctuation.keep.readElements item 0 rest
    else (mistyped "a sequence").read (c :: rest)

theorem length_of_readSequence {item : Reader α} {s rest : List Char} {as : List α}
    (h : item.readSequence s = .ok (as, rest)) : rest.length < s.length := by
  unfold readSequence at h
  split at h
  · cases h
  · next hs =>
    have h1 := length_of_skipBlanks hs
    split at h
    · exact Nat.lt_trans (Punctuation.length_of_readElements h) h1
    · have h2 := (mistyped "a sequence").shorter h
      simp only [List.length_cons] at h2
      omega

def sequence (item : Reader α) : Reader (List α) := ⟨item.readSequence, length_of_readSequence⟩

end Reader

end Conformance.Json
