import Conformance.Entries
import Conformance.Json.Container
import Conformance.Json.Numeral
import Conformance.Json.Quote

/-! Values in JSON, read in one of two manners: kept as a document, or passed over.  A document
that is kept may have 127 brackets open; what is passed over may have any number. -/

namespace Conformance.Json

/-- A manner of reading: what is made of strings and keys (`τ`) and of values (`α`). -/
structure Manner (τ α : Type) where
  punctuation : Punctuation
  /-- Reads a string behind its opening quote. -/
  string : Reader τ
  /-- Reads a number. -/
  number : Reader α
  null : α
  bool : Bool → α
  text : τ → α
  list : List α → α
  /-- Members come in the order in which they are written. -/
  object : List (τ × α) → α

/-- The manner that keeps documents.  A key that is written twice keeps its place and takes the
later value. -/
def Manner.keep : Manner String Document where
  punctuation := .keep
  string := StringRule.keep.reader.map String.ofList
  number := Numeral.reader
  null := .null
  bool := .bool
  text := .string
  list := .list
  object members := .object (Entries.ofPairs members)

def Manner.skip : Manner Unit Unit where
  punctuation := .skip
  string := StringRule.skip.reader.map fun _ => ()
  number := Numeral.skipper
  null := ()
  bool _ := ()
  text _ := ()
  list _ := ()
  object _ := ()

namespace Manner

variable {τ α : Type}

def readWord (a : α) (letters : List Char) (rest : List Char) : Reading α :=
  match afterWord letters rest with
  | .ok after => .ok (a, after)
  | .error fault => .error fault

def readList (m : Manner τ α) (item : Reader α) (s : List Char) : Reading α :=
  match m.punctuation.readElements item 0 s with
  | .ok (items, rest) => .ok (m.list items, rest)
  | .error fault => .error fault

def member (item : Reader α) (step : τ → Step) (gathered : List (τ × α)) (key : τ) :
    Reader (List (τ × α)) :=
  (item.afterColon (step key)).map fun a => (key, a) :: gathered

def readObject (m : Manner τ α) (item : Reader α) (step : τ → Step) (s : List Char) : Reading α :=
  match m.punctuation.readMembers m.string (member item step) true [] s with
  | .ok (members, rest) => .ok (m.object members.reverse, rest)
  | .error fault => .error fault

/-- Reads a value that begins with a given character.  Without a reader for items no bracket may be
opened. -/
def readFrom (m : Manner τ α) (step : τ → Step) (item? : Option (Reader α)) (c : Char)
    (rest : List Char) : Reading α :=
  if c = 'n' then readWord m.null ['u', 'l', 'l'] rest
  else if c = 't' then readWord (m.bool true) ['r', 'u', 'e'] rest
  else if c = 'f' then readWord (m.bool false) ['a', 'l', 's', 'e'] rest
  else if c = '"' then (m.string.map m.text).read rest
  else if c = '[' || c = '\x7b' then
    match item? with
    | none => .error (.next .tooDeep (c :: rest))
    | some item => if c = '[' then m.readList item rest else m.readObject item step rest
  else if c = '-' || c.isDigit then m.number.read (c :: rest)
  else .error (.next .noValue (c :: rest))

theorem length_of_readWord {a b : α} {letters s rest : List Char}
    (h : readWord a letters s = .ok (b, rest)) : rest.length ≤ s.length := by
  unfold readWord at h
  split at h
  · next hw =>
    cases h
    exact length_of_afterWord hw
  · cases h

theorem length_of_readFrom {m : Manner τ α} {step : τ → Step} {item? : Option (Reader α)} {c : Char}
    {s rest : List Char} {a : α} (h : m.readFrom step item? c s = .ok (a, rest)) :
    rest.length ≤ s.length := by
  unfold readFrom at h
  split at h
  · exact length_of_readWord h
  · split at h
    · exact length_of_readWord h
    · split at h
      · exact length_of_readWord h
      · split at h
        · exact Nat.le_of_lt ((m.string.map m.text).shorter h)
        · split at h
          · split at h
            · cases h
            · split at h
              · unfold readList at h
                split at h
                · next hl =>
                  cases h
                  exact Nat.le_of_lt (Punctuation.length_of_readElements hl)
                · cases h
              · unfold readObject at h
                split at h
                · next ho =>
                  cases h
                  exact Nat.le_of_lt (Punctuation.length_of_readMembers ho)
                · cases h
          · split at h
            · exact Nat.le_of_lt_succ (m.number.shorter h)
            · cases h

def readValue (m : Manner τ α) (step : τ → Step) (item? : Option (Reader α)) (s : List Char) :
    Reading α :=
  match skipBlanks s with
  | [] => .error (.next .endInValue [])
  | c :: rest => m.readFrom step item? c rest

theorem length_of_readValue {m : Manner τ α} {step : τ → Step} {item? : Option (Reader α)}
    {s rest : List Char} {a : α} (h : m.readValue step item? s = .ok (a, rest)) :
    rest.length < s.length := by
  unfold readValue at h
  split at h
  · cases h
  · next hs => exact Nat.lt_of_le_of_lt (length_of_readFrom h) (length_of_skipBlanks hs)

/-- The reader of a value whose items are read by another reader. -/
def value (m : Manner τ α) (step : τ → Step) (item? : Option (Reader α)) : Reader α :=
  ⟨m.readValue step item?, length_of_readValue⟩

/-- The reader of a value with at most `depth` brackets open. -/
def valueWithin (m : Manner τ α) (step : τ → Step) : (depth : Nat) → Reader α
  | 0 => m.value step none
  | depth + 1 => m.value step (some (m.valueWithin step depth))

end Manner

/-- The greatest number of open brackets in a document that is kept. -/
def greatestDepth : Nat := 127

def Document.reader : Reader Document := Manner.keep.valueWithin .key greatestDepth

def Document.scalarReader : Reader Document := Manner.keep.value .key none

def openingCount (s : List Char) : Nat := s.countP fun c => c = '[' || c = '\x7b'

/-- Passes over a value.  No more brackets can be open than the text has.  What is wrong inside the
value is not traced further than to the value. -/
def skipper : Reader Unit where
  read s :=
    ((Manner.skip.valueWithin (fun _ => .someMember) (openingCount s)).mapFault
      fun fault => { fault with path := [] }).read s
  shorter h := Reader.shorter _ h

end Conformance.Json
