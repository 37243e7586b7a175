import Conformance.Json.Reader

/-! How JSON is written: a value as a tree of what stands in its text, the tokens of that tree, and
the texts in which these tokens follow one another with blanks anywhere between them.  A written
value need not be one that can be read: a number may be too great for a float, and an escape may
name half of a character. -/

namespace Conformance.Json

/-! ### Strings -/

/-- A hexadecimal digit. -/
structure HexDigit where
  value : Fin 16
  capital : Bool
deriving DecidableEq, Repr

def HexDigit.char (d : HexDigit) : Char :=
  if d.capital then (Nat.digitChar d.value).toUpper else Nat.digitChar d.value

/-- The letters that may stand behind a backslash, with the characters they stand for. -/
def shortEscapes : List (Char × Char) :=
  [('"', '"'), ('\\', '\\'), ('/', '/'), ('b', '\x08'), ('f', '\x0c'), ('n', '\n'), ('r', '\r'),
    ('t', '\t')]

/-- What stands in a string for a character or for a part of one. -/
inductive Glyph where
  /-- The character itself. -/
  | plain (c : Char) (h : c ≠ '"' ∧ c ≠ '\\' ∧ 0x20 ≤ c.toNat)
  /-- A letter behind a backslash. -/
  | short (letter c : Char) (h : (letter, c) ∈ shortEscapes)
  /-- A code unit of sixteen bits. -/
  | unit (a b c d : HexDigit)
deriving DecidableEq, Repr

namespace Glyph

def chars : Glyph → List Char
  | plain c _ => [c]
  | short letter _ _ => ['\\', letter]
  | unit a b c d => ['\\', 'u', a.char, b.char, c.char, d.char]

/-- The number of a code unit. -/
def unitValue (a b c d : HexDigit) : Nat :=
  0x1000 * a.value + 0x100 * b.value + 0x10 * c.value + d.value

/-- The character of which two code units are the halves. -/
def joined (n m : Nat) : Char := Char.ofNat (0x10000 + 0x400 * (n - 0xD800) + (m - 0xDC00))

/-- The text that is written, if every unit that is half of a character has the other half behind
it. -/
def text? : List Glyph → Option (List Char)
  | [] => some []
  | plain c _ :: rest => (text? rest).map (c :: ·)
  | short _ c _ :: rest => (text? rest).map (c :: ·)
  | unit a b c d :: rest =>
    let n := unitValue a b c d
    if n < 0xD800 ∨ 0xE000 ≤ n then (text? rest).map (Char.ofNat n :: ·)
    else match rest with
      | unit a' b' c' d' :: rest =>
        let m := unitValue a' b' c' d'
        if n < 0xDC00 ∧ 0xDC00 ≤ m ∧ m < 0xE000 then (text? rest).map (joined n m :: ·) else none
      | _ => none

def string? (glyphs : List Glyph) : Option String := (text? glyphs).map String.ofList

/-- The glyphs write a text. -/
def Spell (glyphs : List Glyph) (text : String) : Prop := string? glyphs = some text

instance (glyphs : List Glyph) (text : String) : Decidable (Spell glyphs text) :=
  inferInstanceAs (Decidable (_ = _))

/-- The character itself where it may stand, else its code unit. -/
def ofChar (c : Char) : Glyph :=
  if h : c ≠ '"' ∧ c ≠ '\\' ∧ 0x20 ≤ c.toNat then plain c h
  else unit ⟨0, false⟩ ⟨0, false⟩ ⟨Fin.ofNat 16 (c.toNat / 0x10), false⟩
    ⟨Fin.ofNat 16 c.toNat, false⟩

/-- A spelling of a text. -/
def ofText (text : String) : List Glyph := text.toList.map ofChar

theorem text?_unit {a b c d : HexDigit} (h : unitValue a b c d < 0xD800) (rest : List Glyph) :
    text? (unit a b c d :: rest) = (text? rest).map (Char.ofNat (unitValue a b c d) :: ·) := by
  rw [text?.eq_def]
  exact if_pos (.inl h)

theorem text?_ofChar (c : Char) (rest : List Glyph) :
    text? (ofChar c :: rest) = (text? rest).map (c :: ·) := by
  unfold ofChar
  split
  · rfl
  · next h =>
    have hSmall : c.toNat < 0x80 := by
      by_cases hQuote : c = '"'
      · rw [hQuote]
        decide
      · by_cases hSlash : c = '\\'
        · rw [hSlash]
          decide
        · have : ¬ 0x20 ≤ c.toNat := fun hPlain => h ⟨hQuote, hSlash, hPlain⟩
          omega
    have hUnit : unitValue ⟨0, false⟩ ⟨0, false⟩ ⟨Fin.ofNat 16 (c.toNat / 0x10), false⟩
        ⟨Fin.ofNat 16 c.toNat, false⟩ = c.toNat := by
      simp only [unitValue, Fin.val_ofNat, Fin.val_zero]
      omega
    rw [text?_unit (by omega), hUnit, Char.ofNat_toNat]

/-- Every text has a spelling. -/
theorem spell_ofText (text : String) : Spell (ofText text) text := by
  have hText (s : List Char) : text? (s.map ofChar) = some s := by
    induction s with
    | nil => rfl
    | cons c s ih =>
      rw [List.map_cons, text?_ofChar, ih]
      rfl
  rw [Spell, string?, ofText, hText, Option.map_some, String.ofList_toList]

/-- The glyphs between quotes. -/
def quoted (glyphs : List Glyph) : List Char := '"' :: (glyphs.flatMap chars ++ ['"'])

end Glyph

/-! ### Numbers -/

/-- One or more decimal digits. -/
def IsDigits (s : List Char) : Prop := s ≠ [] ∧ ∀ c ∈ s, c.isDigit = true

/-- A number: a sign, digits without a leading zero, a fraction and an exponent, where only the
digits must be there. -/
inductive IsNumber : List Char → Prop where
  | intro {sign whole fraction exponent : List Char} (hSign : sign = [] ∨ sign = ['-'])
      (hWhole : whole = ['0'] ∨ IsDigits whole ∧ whole.head? ≠ some '0')
      (hFraction : fraction = [] ∨ ∃ ds, IsDigits ds ∧ fraction = '.' :: ds)
      (hExponent : exponent = [] ∨ ∃ mark ∈ ['e', 'E'], ∃ sign ∈ [[], ['+'], ['-']], ∃ ds,
        IsDigits ds ∧ exponent = mark :: (sign ++ ds)) :
      IsNumber (sign ++ (whole ++ (fraction ++ exponent)))

/-! ### Values -/

/-- A value as it is written. -/
inductive Written where
  | null
  | bool (b : Bool)
  | number (text : List Char) (h : IsNumber text)
  | string (glyphs : List Glyph)
  | list (items : List Written)
  | object (members : List (List Glyph × Written))

/-- The members of an object, each a name and a value. -/
abbrev Members := List (List Glyph × Written)

/-- What stands before an item of a list or an object. -/
def comma (first : Bool) : List (List Char) := if first then [] else [[',']]

namespace Written

mutual

/-- The tokens of a written value, in order. -/
def tokens : Written → List (List Char)
  | null => ["null".toList]
  | bool b => [(if b then "true" else "false").toList]
  | number text _ => [text]
  | string glyphs => [Glyph.quoted glyphs]
  | list items => ['['] :: elementTokens true items
  | object members => ['\x7b'] :: memberTokens true members

/-- The tokens of elements and of the bracket behind them. -/
def elementTokens (first : Bool) : List Written → List (List Char)
  | [] => [[']']]
  | w :: rest => comma first ++ (w.tokens ++ elementTokens false rest)

/-- The tokens of members and of the brace behind them. -/
def memberTokens (first : Bool) : Members → List (List Char)
  | [] => [['\x7d']]
  | (key, w) :: rest =>
    comma first ++ (Glyph.quoted key :: [':'] :: (w.tokens ++ memberTokens false rest))

end

mutual

/-- The greatest number of brackets that are open at once. -/
def depth : Written → Nat
  | list items => elementDepth items + 1
  | object members => memberDepth members + 1
  | _ => 0

def elementDepth : List Written → Nat
  | [] => 0
  | w :: rest => max w.depth (elementDepth rest)

def memberDepth : Members → Nat
  | [] => 0
  | (_, w) :: rest => max w.depth (memberDepth rest)

end

end Written

/-! ### Layout -/

/-- Tokens one after another, with blanks before, between and behind them. -/
inductive Laid : List (List Char) → List Char → Prop where
  | nil : Laid [] []
  | blank {c : Char} {tokens : List (List Char)} {s : List Char} (hc : isBlank c = true)
      (h : Laid tokens s) : Laid tokens (c :: s)
  | token (t : List Char) {tokens : List (List Char)} {s : List Char} (h : Laid tokens s) :
      Laid (t :: tokens) (t ++ s)

/-- Whether a token stands here behind blanks, and behind it what `next` looks for. -/
def findsToken (t : List Char) (next : List Char → Bool) : List Char → Bool
  | [] => t.isEmpty && next []
  | c :: s =>
    t.isPrefixOf (c :: s) && next ((c :: s).drop t.length) || isBlank c && findsToken t next s

/-- Whether tokens are laid out in a text. -/
def laysOut : List (List Char) → List Char → Bool
  | [], s => s.all isBlank
  | t :: tokens, s => findsToken t (laysOut tokens) s

theorem laid_nil_iff {s : List Char} : Laid [] s ↔ s.all isBlank = true := by
  induction s with
  | nil => exact iff_of_true .nil rfl
  | cons c s ih =>
    rw [List.all_cons, Bool.and_eq_true, ← ih]
    constructor
    · intro h
      cases h with
      | blank hc h => exact ⟨hc, h⟩
    · rintro ⟨hc, h⟩
      exact h.blank hc

theorem findsToken_iff {t : List Char} {tokens : List (List Char)} {next : List Char → Bool}
    (hNext : ∀ s, next s = true ↔ Laid tokens s) (s : List Char) :
    findsToken t next s = true ↔ Laid (t :: tokens) s := by
  induction s with
  | nil =>
    rw [findsToken, Bool.and_eq_true, hNext, List.isEmpty_iff]
    constructor
    · rintro ⟨rfl, h⟩
      exact h.token []
    · generalize hAll : t :: tokens = all
      generalize hText : ([] : List Char) = text
      intro h
      cases h with
      | nil => cases hAll
      | blank => cases hText
      | token t' h =>
        cases hAll
        obtain ⟨rfl, rfl⟩ := List.append_eq_nil_iff.mp hText.symm
        exact ⟨rfl, h⟩
  | cons c s ih =>
    rw [findsToken, Bool.or_eq_true, Bool.and_eq_true, Bool.and_eq_true, hNext, ih,
      List.isPrefixOf_iff_prefix, List.prefix_iff_eq_append]
    constructor
    · rintro (⟨hText, h⟩ | ⟨hc, h⟩)
      · rw [← hText]
        exact h.token t
      · exact h.blank hc
    · generalize hAll : t :: tokens = all
      generalize hText : c :: s = text
      intro h
      cases h with
      | nil => cases hAll
      | blank hc h =>
        cases hAll
        cases hText
        exact .inr ⟨hc, h⟩
      | token t' h =>
        cases hAll
        exact .inl (by simpa using h)

theorem laysOut_iff (tokens : List (List Char)) (s : List Char) :
    laysOut tokens s = true ↔ Laid tokens s := by
  induction tokens generalizing s with
  | nil => exact laid_nil_iff.symm
  | cons t tokens ih => exact findsToken_iff ih s

instance (tokens : List (List Char)) (s : List Char) : Decidable (Laid tokens s) :=
  decidable_of_iff _ (laysOut_iff tokens s)

end Conformance.Json
