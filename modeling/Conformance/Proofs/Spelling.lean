import Conformance.Json.Value
import Conformance.Proofs.JsonText
import Conformance.Proofs.ReaderSteps

/-! Strings and numbers as they are written, and what their readers make of them.  A string that is
kept gives the text that its glyphs write, and fails when they write none; a string or a number that
is passed over may be any. -/

namespace Conformance.Json

variable {α β : Type} {s rest : List Char}

/-- What a reader of strings makes of glyphs with the closing quote behind them. -/
def Reader.Spells (r : Reader α) (glyphs : List Glyph) (outcome : Option α) : Prop :=
  ∀ s, (r.read (glyphs.flatMap Glyph.chars ++ '"' :: s)).toOption = outcome.map (·, s)

/-! ### Digits of escapes -/

theorem hexDigit?_char (d : HexDigit) : hexDigit? d.char = some d.value := by
  have hAll : ∀ (value : Fin 16) (capital : Bool),
      hexDigit? (HexDigit.char ⟨value, capital⟩) = some value := by
    decide
  exact hAll d.value d.capital

theorem readUnit_chars (a b c d : HexDigit) (rest : List Char) :
    readUnit (a.char :: b.char :: c.char :: d.char :: rest) =
      .ok (Glyph.unitValue a b c d, rest) := by
  refine readUnit_eq_ok_iff.mpr ⟨_, _, _, _, rfl, ?_⟩
  simp only [hexNumber?, hexDigit?_char, bind, Option.bind_some, pure, Option.some.injEq,
    Glyph.unitValue]
  omega

theorem shortEscape?_of_mem {letter c : Char} (h : (letter, c) ∈ shortEscapes) :
    shortEscape? letter = some c := by
  have hAll : ∀ e ∈ shortEscapes, shortEscape? e.1 = some e.2 := by decide
  exact hAll _ h

theorem letter_ne_of_mem {letter c : Char} (h : (letter, c) ∈ shortEscapes) : letter ≠ 'u' := by
  have hAll : ∀ e ∈ shortEscapes, e.1 ≠ 'u' := by decide
  exact hAll _ h

/-! ### Strings that are kept -/

theorem readUnits_single {a b c d : HexDigit}
    (h : Glyph.unitValue a b c d < 0xD800 ∨ 0xE000 ≤ Glyph.unitValue a b c d) (rest : List Char) :
    readUnits (a.char :: b.char :: c.char :: d.char :: rest) =
      .ok (Char.ofNat (Glyph.unitValue a b c d), rest) := by
  have hSecond : isSecondSurrogate (Glyph.unitValue a b c d) = false := by
    simp only [isSecondSurrogate, Bool.and_eq_false_iff, decide_eq_false_iff_not]
    omega
  have hFirst : isFirstSurrogate (Glyph.unitValue a b c d) = false := by
    simp only [isFirstSurrogate, Bool.and_eq_false_iff, decide_eq_false_iff_not]
    omega
  simp [readUnits, readUnit_chars, hSecond, hFirst]

theorem readUnits_half {a b c d : HexDigit}
    (h : ¬ (Glyph.unitValue a b c d < 0xD800 ∨ 0xE000 ≤ Glyph.unitValue a b c d))
    (rest : List Char) :
    readUnits (a.char :: b.char :: c.char :: d.char :: rest) =
      if Glyph.unitValue a b c d < 0xDC00 then readSecond (Glyph.unitValue a b c d) rest
      else .error (.here .loneSurrogate rest) := by
  rw [readUnits, readUnit_chars]
  dsimp only
  by_cases hFirst : Glyph.unitValue a b c d < 0xDC00
  · have hSecond : isSecondSurrogate (Glyph.unitValue a b c d) = false := by
      simp only [isSecondSurrogate, Bool.and_eq_false_iff, decide_eq_false_iff_not]
      omega
    have hFirst' : isFirstSurrogate (Glyph.unitValue a b c d) = true := by
      simp only [isFirstSurrogate, Bool.and_eq_true, decide_eq_true_eq]
      omega
    simp only [hSecond, hFirst', if_pos hFirst, if_true, Bool.false_eq_true, if_false]
  · have hSecond : isSecondSurrogate (Glyph.unitValue a b c d) = true := by
      simp only [isSecondSurrogate, Bool.and_eq_true, decide_eq_true_eq]
      omega
    simp only [hSecond, if_neg hFirst, if_true]

/-- Two halves of a character, the first in front. -/
theorem readSecond_chars (n : Nat) {a b c d : HexDigit}
    (h : 0xDC00 ≤ Glyph.unitValue a b c d ∧ Glyph.unitValue a b c d < 0xE000) (rest : List Char) :
    readSecond n ('\\' :: 'u' :: a.char :: b.char :: c.char :: d.char :: rest) =
      .ok (Glyph.joined n (Glyph.unitValue a b c d), rest) := by
  have hSecond : isSecondSurrogate (Glyph.unitValue a b c d) = true := by
    simp only [isSecondSurrogate, Bool.and_eq_true, decide_eq_true_eq]
    omega
  refine readSecond_eq_ok_iff.mpr ⟨_, _, rfl, readUnit_chars a b c d rest, hSecond, ?_⟩
  refine congrArg Char.ofNat ?_
  omega

theorem readSecond_fault (n : Nat) (h : ∀ body m rest, s = '\\' :: 'u' :: body →
    readUnit body = .ok (m, rest) → isSecondSurrogate m = false) :
    (readSecond n s).toOption = none := by
  cases hRead : readSecond n s with
  | error fault => rfl
  | ok p =>
    obtain ⟨body, m, hText, hUnit, hSecond, -⟩ := readSecond_eq_ok_iff.mp hRead
    rw [h body m p.2 hText hUnit] at hSecond
    cases hSecond

theorem toOption_mapReading (f : α → β) (reading : Reading α) :
    (Reader.mapReading f reading).toOption = reading.toOption.map fun p => (f p.1, p.2) := by
  cases reading <;> rfl

/-- Behind a backslash the escape is read and then the rest of the string; a faulty escape is the
end. -/
theorem readString_escaped (units : Reading Char) {tail : List Char}
    (h : readEscape StringRule.keep.plain StringRule.keep.units.read tail = units) :
    (StringRule.keep.readString ('\\' :: tail)).toOption =
      units.toOption.bind fun p =>
        (StringRule.keep.readString p.2).toOption.map fun q => (p.1 :: q.1, q.2) := by
  cases units with
  | error fault =>
    rw [StringRule.readString_fault h]
    rfl
  | ok p =>
    rw [StringRule.readString_escape h, toOption_mapReading]
    rfl

theorem readString_unit (a b c d : HexDigit) (tail : List Char) :
    (StringRule.keep.readString (Glyph.chars (.unit a b c d) ++ tail)).toOption =
      (readUnits (a.char :: b.char :: c.char :: d.char :: tail)).toOption.bind fun p =>
        (StringRule.keep.readString p.2).toOption.map fun q => (p.1 :: q.1, q.2) := by
  have hLetter : shortEscape? 'u' = none := by decide
  have hText : Glyph.chars (.unit a b c d) ++ tail =
      '\\' :: 'u' :: a.char :: b.char :: c.char :: d.char :: tail := rfl
  rw [hText]
  refine readString_escaped _ ?_
  rw [readEscape, hLetter]
  exact if_pos rfl

theorem not_unit_of_text {glyphs : List Glyph}
    (h : ∀ a b c d rest, glyphs = .unit a b c d :: rest → False) (body : List Char) :
    glyphs.flatMap Glyph.chars ++ '"' :: s ≠ '\\' :: 'u' :: body := by
  intro hEq
  cases glyphs with
  | nil => cases hEq
  | cons g rest =>
    cases g with
    | plain c hPlain =>
      obtain ⟨rfl, -⟩ := List.cons.inj hEq
      exact hPlain.2.1 rfl
    | short letter c hShort =>
      obtain ⟨-, hLetter⟩ := List.cons.inj hEq
      exact letter_ne_of_mem hShort (List.cons.inj hLetter).1
    | unit a b c d => exact h a b c d rest rfl

/-- The text that glyphs write is read up to the quote behind them; where they write none, the
reading fails. -/
theorem readString_keep (glyphs : List Glyph) (s : List Char) :
    (StringRule.keep.readString (glyphs.flatMap Glyph.chars ++ '"' :: s)).toOption =
      (Glyph.text? glyphs).map (·, s) := by
  fun_induction Glyph.text? glyphs with
  | case1 =>
    rw [List.flatMap_nil, List.nil_append, StringRule.readString_quote]
    rfl
  | case2 c h rest ih =>
    have hControl : ¬ c.toNat < 0x20 := by omega
    rw [List.flatMap_cons, List.append_assoc, Glyph.chars, List.singleton_append,
      StringRule.readString_plain h.1 h.2.1 hControl, toOption_mapReading, ih]
    cases Glyph.text? rest <;> rfl
  | case3 letter c h rest ih =>
    have hEscape : readEscape StringRule.keep.plain StringRule.keep.units.read
        (letter :: (rest.flatMap Glyph.chars ++ '"' :: s)) =
          .ok (c, rest.flatMap Glyph.chars ++ '"' :: s) := by
      rw [readEscape, shortEscape?_of_mem h]
      rfl
    rw [List.flatMap_cons, List.append_assoc, Glyph.chars, List.cons_append, List.singleton_append,
      readString_escaped _ hEscape]
    show Option.map _ _ = _
    rw [ih]
    cases Glyph.text? rest <;> rfl
  | case4 a b c d rest n h ih =>
    rw [List.flatMap_cons, List.append_assoc, readString_unit, readUnits_single h]
    show Option.map _ _ = _
    rw [ih]
    cases Glyph.text? rest <;> rfl
  | case5 a b c d n h a' b' c' d' rest m hPair ih =>
    have hSecond := readSecond_chars n hPair.2 (rest.flatMap Glyph.chars ++ '"' :: s)
    rw [List.flatMap_cons, List.append_assoc, readString_unit, readUnits_half h, if_pos hPair.1,
      List.flatMap_cons, List.append_assoc, Glyph.chars]
    simp only [List.cons_append, List.nil_append]
    rw [hSecond]
    show Option.map _ _ = _
    rw [ih]
    cases Glyph.text? rest <;> simp only [Option.map_none, Option.map_some, n, m]
  | case6 a b c d n h a' b' c' d' rest m hPair =>
    rw [List.flatMap_cons, List.append_assoc, readString_unit, readUnits_half h]
    split
    · next hFirst =>
      rw [readSecond_fault]
      · rfl
      · rintro body m' after hBody hUnit
        rw [List.flatMap_cons, List.append_assoc, Glyph.chars] at hBody
        simp only [List.cons_append, List.nil_append, List.cons.injEq, true_and] at hBody
        rw [← hBody, readUnit_chars] at hUnit
        cases hUnit
        simp only [isSecondSurrogate, Bool.and_eq_false_iff, decide_eq_false_iff_not]
        omega
    · rfl
  | case7 a b c d rest n h hRest =>
    -- What stands behind the half is no escape of a unit, so the other half is missing.
    rw [List.flatMap_cons, List.append_assoc, readString_unit, readUnits_half h]
    split
    · rw [readSecond_fault]
      · rfl
      · rintro body m after hBody -
        exact absurd hBody (not_unit_of_text hRest body)
    · rfl

theorem keep_spells (glyphs : List Glyph) :
    Manner.keep.string.Spells glyphs (Glyph.string? glyphs) := by
  intro s
  show (Reader.mapReading String.ofList _).toOption = _
  rw [toOption_mapReading, StringRule.reader, readString_keep, Glyph.string?, Option.map_map,
    Option.map_map]
  rfl

/-! ### Strings that are passed over -/

theorem readString_skip (glyphs : List Glyph) (s : List Char) :
    ∃ units, StringRule.skip.readString (glyphs.flatMap Glyph.chars ++ '"' :: s) =
      .ok (units, s) := by
  induction glyphs with
  | nil => exact ⟨[], StringRule.readString_quote⟩
  | cons g rest ih =>
    obtain ⟨units, ih⟩ := ih
    rw [List.flatMap_cons, List.append_assoc]
    cases g with
    | plain c h =>
      have hControl : ¬ c.toNat < 0x20 := by omega
      refine ⟨() :: units, ?_⟩
      rw [Glyph.chars, List.singleton_append, StringRule.readString_plain h.1 h.2.1 hControl, ih]
      rfl
    | short letter c h =>
      have hEscape : readEscape StringRule.skip.plain StringRule.skip.units.read
          (letter :: (rest.flatMap Glyph.chars ++ '"' :: s)) =
            .ok ((), rest.flatMap Glyph.chars ++ '"' :: s) := by
        rw [readEscape, shortEscape?_of_mem h]
      refine ⟨() :: units, ?_⟩
      rw [Glyph.chars, List.cons_append, List.singleton_append,
        StringRule.readString_escape hEscape, ih]
      rfl
    | unit a b c d =>
      have hLetter : shortEscape? 'u' = none := by decide
      have hText (tail : List Char) : Glyph.chars (.unit a b c d) ++ tail =
          '\\' :: 'u' :: a.char :: b.char :: c.char :: d.char :: tail := rfl
      have hEscape (tail : List Char) : readEscape StringRule.skip.plain StringRule.skip.units.read
          ('u' :: a.char :: b.char :: c.char :: d.char :: tail) = .ok ((), tail) := by
        rw [readEscape, hLetter]
        show Reader.mapReading _ (readUnit _) = _
        rw [readUnit_chars]
        rfl
      refine ⟨() :: units, ?_⟩
      rw [hText, StringRule.readString_escape (hEscape _), ih]
      rfl

theorem skip_spells (glyphs : List Glyph) : Manner.skip.string.Spells glyphs (some ()) := by
  intro s
  obtain ⟨units, h⟩ := readString_skip glyphs s
  show (Reader.mapReading _ (StringRule.skip.readString _)).toOption = _
  rw [h]
  rfl

/-! ### Numbers -/

/-- A number ends here: nothing follows that could belong to it. -/
def EndsNumber (s : List Char) : Prop :=
  ∀ c ∈ s.head?, c.isDigit = false ∧ c ≠ '.' ∧ c ≠ 'e' ∧ c ≠ 'E'

namespace Numeral

variable {ds : List Char}

theorem digits_of_isDigits (h : ∀ c ∈ ds, c.isDigit = true)
    (hRest : ∀ c ∈ rest.head?, c.isDigit = false) : digits (ds ++ rest) = (ds, rest) := by
  rw [digits, List.takeWhile_append_of_pos h, List.dropWhile_append_of_pos h]
  cases rest with
  | nil => simp
  | cons c rest => simp [hRest c rfl]

theorem scanWhole_append (atEnd : Cause)
    (h : ds = ['0'] ∨ IsDigits ds ∧ ds.head? ≠ some '0')
    (hRest : ∀ c ∈ rest.head?, c.isDigit = false) :
    scanWhole atEnd (ds ++ rest) = .ok (ds, rest) := by
  rcases h with rfl | ⟨⟨hne, hDigits⟩, hZero⟩
  · cases rest with
    | nil => rfl
    | cons c rest =>
      have hc := hRest c rfl
      simp [scanWhole, hc]
  · obtain ⟨c, ds, rfl⟩ := List.exists_cons_of_ne_nil hne
    obtain ⟨hc, hTail⟩ := List.forall_mem_cons.mp hDigits
    have hc0 : c ≠ '0' := fun hEq => hZero (congrArg some hEq)
    rw [List.cons_append, scanWhole, if_neg hc0, if_pos hc, digits_of_isDigits hTail hRest]

theorem scanFraction_of_head (atEnd : Cause) (h : ∀ c ∈ rest.head?, c ≠ '.') :
    scanFraction atEnd rest = .ok ([], rest) := by
  cases rest with
  | nil => rfl
  | cons c rest => exact scanFraction_of_ne (h c rfl) atEnd rest

theorem exists_scanFraction (atEnd : Cause)
    (h : s = [] ∨ ∃ ds, IsDigits ds ∧ s = '.' :: ds)
    (hRest : ∀ c ∈ rest.head?, c.isDigit = false ∧ c ≠ '.') :
    ∃ fraction, scanFraction atEnd (s ++ rest) = .ok (fraction, rest) := by
  rcases h with rfl | ⟨ds, ⟨hne, hDigits⟩, rfl⟩
  · exact ⟨[], scanFraction_of_head atEnd fun c hc => (hRest c hc).2⟩
  · have hSplit := digits_of_isDigits hDigits fun c hc => (hRest c hc).1
    exact ⟨ds, scanFraction_of_digits hSplit hne⟩

theorem scanExponent_of_head (atEnd : Cause) (h : ∀ c ∈ rest.head?, c ≠ 'e' ∧ c ≠ 'E') :
    scanExponent atEnd rest = .ok ((false, []), rest) := by
  unfold scanExponent
  split
  · exact absurd rfl (h 'e' rfl).1
  · exact absurd rfl (h 'E' rfl).2
  · rfl

theorem scanExponentDigits_append (atEnd : Cause) (h : IsDigits ds)
    (hRest : ∀ c ∈ rest.head?, c.isDigit = false) :
    scanExponentDigits atEnd (ds ++ rest) = .ok (ds, rest) := by
  obtain ⟨c, ds, rfl⟩ := List.exists_cons_of_ne_nil h.1
  obtain ⟨hc, hTail⟩ := List.forall_mem_cons.mp h.2
  rw [List.cons_append, scanExponentDigits, if_pos hc, digits_of_isDigits hTail hRest]

theorem isDigit_ne_sign {c : Char} (h : c.isDigit = true) : c ≠ '+' ∧ c ≠ '-' := by
  constructor <;>
  · rintro rfl
    revert h
    decide

theorem exists_scanSigned_append (atEnd : Cause) {sign : List Char}
    (hSign : sign ∈ [[], ['+'], ['-']]) (h : IsDigits ds)
    (hRest : ∀ c ∈ rest.head?, c.isDigit = false) :
    ∃ e, scanSigned atEnd (sign ++ (ds ++ rest)) = .ok (e, rest) := by
  have hDigits := scanExponentDigits_append atEnd h hRest
  simp only [List.mem_cons, List.not_mem_nil, or_false] at hSign
  rcases hSign with rfl | rfl | rfl
  · obtain ⟨c, ds, rfl⟩ := List.exists_cons_of_ne_nil h.1
    obtain ⟨hPlus, hMinus⟩ := isDigit_ne_sign (h.2 c List.mem_cons_self)
    refine ⟨(false, c :: ds), ?_⟩
    rw [List.nil_append, List.cons_append, scanSigned_of_ne hPlus hMinus, ← List.cons_append,
      hDigits]
    rfl
  · refine ⟨(false, ds), ?_⟩
    rw [List.singleton_append, scanSigned_plus, hDigits]
    rfl
  · refine ⟨(true, ds), ?_⟩
    rw [List.singleton_append, scanSigned_minus, hDigits]
    rfl

theorem exists_scanExponent (atEnd : Cause)
    (h : s = [] ∨ ∃ mark ∈ ['e', 'E'], ∃ sign ∈ [[], ['+'], ['-']], ∃ ds,
      IsDigits ds ∧ s = mark :: (sign ++ ds))
    (hRest : ∀ c ∈ rest.head?, c.isDigit = false ∧ c ≠ 'e' ∧ c ≠ 'E') :
    ∃ e, scanExponent atEnd (s ++ rest) = .ok (e, rest) := by
  rcases h with rfl | ⟨mark, hMark, sign, hSign, ds, hDigits, rfl⟩
  · exact ⟨_, scanExponent_of_head atEnd fun c hc => (hRest c hc).2⟩
  · obtain ⟨e, hSigned⟩ := exists_scanSigned_append atEnd hSign hDigits fun c hc => (hRest c hc).1
    refine ⟨e, ?_⟩
    rw [List.cons_append, List.append_assoc]
    simp only [List.mem_cons, List.not_mem_nil, or_false] at hMark
    rcases hMark with rfl | rfl <;> exact hSigned

/-- A sign in front of digits is taken off. -/
theorem exists_minus {sign : List Char} (hSign : sign = [] ∨ sign = ['-'])
    (h : ds = ['0'] ∨ IsDigits ds ∧ ds.head? ≠ some '0') (s : List Char) :
    ∃ negative, minus (sign ++ (ds ++ s)) = (negative, ds ++ s) := by
  rcases hSign with rfl | rfl
  · rcases h with rfl | ⟨⟨hne, hDigits⟩, -⟩
    · exact ⟨false, rfl⟩
    · obtain ⟨c, ds, rfl⟩ := List.exists_cons_of_ne_nil hne
      exact ⟨false, minus_of_ne (isDigit_ne_sign (hDigits c List.mem_cons_self)).2 _⟩
  · exact ⟨true, rfl⟩

/-- What a fraction and an exponent begin with, or else what follows them. -/
theorem head?_append_of_marks {marks : List Char} {p : Char → Prop}
    (hs : s = [] ∨ ∃ c ∈ marks, ∃ t, s = c :: t) (hMarks : ∀ c ∈ marks, p c)
    (hRest : ∀ c ∈ rest.head?, p c) : ∀ c ∈ (s ++ rest).head?, p c := by
  rcases hs with rfl | ⟨c, hc, t, rfl⟩
  · exact hRest
  · intro d hd
    cases hd
    exact hMarks c hc

theorem scan_of_isNumber (atEnd : Cause) (h : IsNumber s) (hEnds : EndsNumber rest) :
    ∃ n, scan atEnd (s ++ rest) = .ok (n, rest) := by
  cases h with
  | @intro sign whole fraction exponent hSign hWhole hFraction hExponent =>
    have hBehindFraction : ∀ c ∈ (exponent ++ rest).head?, c.isDigit = false ∧ c ≠ '.' := by
      have hMarks : ∀ c ∈ ['e', 'E'], c.isDigit = false ∧ c ≠ '.' :=
        List.forall_mem_cons.mpr ⟨by decide, List.forall_mem_singleton.mpr (by decide)⟩
      refine head?_append_of_marks ?_ hMarks fun c hc => ⟨(hEnds c hc).1, (hEnds c hc).2.1⟩
      rcases hExponent with hNone | ⟨mark, hMark, sign, -, ds, -, hEq⟩
      · exact .inl hNone
      · exact .inr ⟨mark, hMark, _, hEq⟩
    have hBehindWhole : ∀ c ∈ (fraction ++ (exponent ++ rest)).head?, c.isDigit = false := by
      have hMarks : ∀ c ∈ ['.'], c.isDigit = false := List.forall_mem_singleton.mpr rfl
      refine head?_append_of_marks ?_ hMarks fun c hc => (hBehindFraction c hc).1
      rcases hFraction with hNone | ⟨ds, -, hEq⟩
      · exact .inl hNone
      · exact .inr ⟨'.', List.mem_cons_self, ds, hEq⟩
    obtain ⟨negative, hMinus⟩ := exists_minus hSign hWhole (fraction ++ (exponent ++ rest))
    obtain ⟨fractionDigits, hScanFraction⟩ := exists_scanFraction atEnd hFraction hBehindFraction
    obtain ⟨⟨exponentNegative, exponentDigits⟩, hScanExponent⟩ :=
      exists_scanExponent atEnd hExponent fun c hc => ⟨(hEnds c hc).1, (hEnds c hc).2.2⟩
    have hText : sign ++ (whole ++ (fraction ++ exponent)) ++ rest =
        sign ++ (whole ++ (fraction ++ (exponent ++ rest))) := by
      simp only [List.append_assoc]
    refine ⟨⟨negative, whole, fractionDigits, exponentNegative, exponentDigits⟩,
      scan_eq_ok_iff.mpr ⟨fraction ++ (exponent ++ rest), exponent ++ rest, ?_, ?_, ?_, ?_⟩⟩
    · rw [hText, hMinus]
    · rw [hText, hMinus]
      exact scanWhole_append atEnd hWhole hBehindWhole
    · exact hScanFraction
    · exact hScanExponent

theorem skip_of_isNumber (h : IsNumber s) (hEnds : EndsNumber rest) :
    skipNumber (s ++ rest) = .ok ((), rest) := by
  obtain ⟨n, hScan⟩ := scan_of_isNumber .badNumber h hEnds
  rw [skipNumber, hScan]

end Numeral

end Conformance.Json
