import Conformance.Proofs.DecimalText
import Conformance.Proofs.DeclarationText
import Conformance.Text.NumericText

/-! How a numeric text is written.  `IsNumeral` puts it together from its parts; the scan takes a
text apart, each part as long as it can be.  No part begins with a character that the part in front
of it could go on with, so the scan finds the parts that were written, and no others. -/

namespace Conformance.Text

open Json (IsDigits)

variable {s rest : List Char}

/-! ### The parts of a numeric text -/

/-- The white space that may surround a number. -/
def padding : List Char := [' ', '\t', '\n', '\r', '\x0b', '\x0c']

/-- A plus, a minus, or nothing. -/
def IsSign (s : List Char) : Prop := s ∈ [[], ['+'], ['-']]

/-- Digits with a fraction that may be empty, or a fraction alone. -/
inductive IsMantissa : List Char → Prop where
  | whole {ds : List Char} (h : IsDigits ds) : IsMantissa ds
  | point {ds es : List Char} (h : IsDigits ds) (hFraction : ∀ c ∈ es, c.isDigit = true) :
      IsMantissa (ds ++ '.' :: es)
  | fraction {ds : List Char} (h : IsDigits ds) : IsMantissa ('.' :: ds)

/-- Nothing, or a mark with signed digits behind it. -/
inductive IsExponent : List Char → Prop where
  | none : IsExponent []
  | marked {mark : Char} {sign ds : List Char} (hMark : mark ∈ ['e', 'E']) (hSign : IsSign sign)
      (h : IsDigits ds) : IsExponent (mark :: (sign ++ ds))

/-- A signed mantissa with an exponent, surrounded by white space. -/
inductive IsNumeral : List Char → Prop where
  | intro {before sign mantissa exponent after : List Char} (hBefore : ∀ c ∈ before, c ∈ padding)
      (hSign : IsSign sign) (hMantissa : IsMantissa mantissa) (hExponent : IsExponent exponent)
      (hAfter : ∀ c ∈ after, c ∈ padding) :
      IsNumeral (before ++ (sign ++ (mantissa ++ (exponent ++ after))))

theorem isPadding_iff {c : Char} : isPadding c = true ↔ c ∈ padding := by
  simp [isPadding, padding, or_assoc]

theorem padding_not_mark {c : Char} (h : c ∈ padding) :
    c.isDigit = false ∧ c ≠ '.' ∧ c ≠ 'e' ∧ c ≠ 'E' := by
  simp only [padding, List.mem_cons, List.not_mem_nil, or_false] at h
  rcases h with rfl | rfl | rfl | rfl | rfl | rfl <;> decide

theorem not_isPadding_of_mark {c : Char} (h : c.isDigit = true ∨ c ∈ ['.', '+', '-']) :
    isPadding c = false := by
  by_contra hPadding
  obtain ⟨hDigit, hPoint, -⟩ := padding_not_mark (isPadding_iff.mp (Bool.not_eq_false _ ▸ hPadding))
  rcases h with h | h
  · rw [hDigit] at h
    cases h
  · simp only [List.mem_cons, List.not_mem_nil, or_false] at h
    rcases h with rfl | rfl | rfl <;> exact absurd hPadding (by decide)

/-- A mantissa begins with a digit or with a point. -/
theorem IsMantissa.exists_head (h : IsMantissa s) :
    ∃ c t, s = c :: t ∧ (c.isDigit = true ∨ c = '.') := by
  have hDigits {ds : List Char} (hDs : IsDigits ds) (t : List Char) :
      ∃ c u, ds ++ t = c :: u ∧ (c.isDigit = true ∨ c = '.') := by
    obtain ⟨c, ds, rfl⟩ := List.exists_cons_of_ne_nil hDs.1
    exact ⟨c, ds ++ t, rfl, .inl (hDs.2 c List.mem_cons_self)⟩
  cases h with
  | whole h => simpa using hDigits h []
  | point h _ => exact hDigits h _
  | fraction _ => exact ⟨'.', _, rfl, .inr rfl⟩

theorem IsExponent.eq_nil_or_marked (h : IsExponent s) :
    s = [] ∨ ∃ c ∈ ['e', 'E'], ∃ t, s = c :: t := by
  cases h with
  | none => exact .inl rfl
  | marked hMark => exact .inr ⟨_, hMark, _, rfl⟩

theorem IsSign.eq_nil_or_marked (h : IsSign s) : s = [] ∨ ∃ c ∈ ['+', '-'], ∃ t, s = c :: t := by
  simp only [IsSign, List.mem_cons, List.not_mem_nil, or_false] at h
  rcases h with rfl | rfl | rfl
  · exact .inl rfl
  · exact .inr ⟨'+', by simp, [], rfl⟩
  · exact .inr ⟨'-', by simp, [], rfl⟩

/-! ### The scan, part by part -/

theorem afterDigits?_eq_some_iff : afterDigits? s = some rest ↔
    ∃ ds, IsDigits ds ∧ s = ds ++ rest ∧ ∀ c ∈ rest.head?, c.isDigit = false := by
  cases s with
  | nil =>
    refine iff_of_false nofun ?_
    rintro ⟨ds, hDigits, hNil, -⟩
    exact hDigits.1 (List.append_eq_nil_iff.mp hNil.symm).1
  | cons c s =>
    rw [afterDigits?, afterFront_eq_some_iff]
    constructor
    · rintro ⟨ds, hne, hDigits, hs, hRest⟩
      exact ⟨ds, ⟨hne, hDigits⟩, hs, hRest⟩
    · rintro ⟨ds, ⟨hne, hDigits⟩, hs, hRest⟩
      exact ⟨ds, hne, hDigits, hs, hRest⟩

theorem exists_sign (s : List Char) : ∃ sign, IsSign sign ∧ s = sign ++ afterSign s := by
  unfold afterSign
  split
  · exact ⟨['+'], by simp [IsSign], rfl⟩
  · exact ⟨['-'], by simp [IsSign], rfl⟩
  · exact ⟨[], by simp [IsSign], rfl⟩

theorem afterSign_append {sign : List Char} (h : IsSign sign)
    (hRest : ∀ c ∈ rest.head?, c ≠ '+' ∧ c ≠ '-') : afterSign (sign ++ rest) = rest := by
  simp only [IsSign, List.mem_cons, List.not_mem_nil, or_false] at h
  rcases h with rfl | rfl | rfl
  · rw [List.nil_append]
    unfold afterSign
    split
    · exact absurd rfl (hRest '+' rfl).1
    · exact absurd rfl (hRest '-' rfl).2
    · rfl
  · rfl
  · rfl

theorem exists_mantissa (h : afterMantissa? s = some rest) :
    ∃ mantissa, IsMantissa mantissa ∧ s = mantissa ++ rest := by
  unfold afterMantissa? at h
  split at h
  · obtain ⟨ds, hDigits, rfl, -⟩ := afterDigits?_eq_some_iff.mp h
    exact ⟨'.' :: ds, .fraction hDigits, rfl⟩
  · split at h
    · next after hWhole =>
      obtain ⟨ds, hDigits, rfl, -⟩ := afterDigits?_eq_some_iff.mp hWhole
      cases h
      refine ⟨ds ++ '.' :: after.takeWhile Char.isDigit, .point hDigits ?_, by simp⟩
      exact fun c hc => List.mem_takeWhile_imp hc
    · obtain ⟨ds, hDigits, rfl, -⟩ := afterDigits?_eq_some_iff.mp h
      exact ⟨ds, .whole hDigits, rfl⟩

theorem ne_point_of_isDigits {ds after : List Char} (h : IsDigits ds) :
    ds ++ rest ≠ '.' :: after := by
  obtain ⟨c, ds, rfl⟩ := List.exists_cons_of_ne_nil h.1
  intro hText
  have hc := h.2 c List.mem_cons_self
  rw [(List.cons.inj hText).1] at hc
  exact absurd hc (by decide)

theorem afterMantissa?_append {mantissa : List Char} (h : IsMantissa mantissa)
    (hRest : ∀ c ∈ rest.head?, c.isDigit = false ∧ c ≠ '.') :
    afterMantissa? (mantissa ++ rest) = some rest := by
  have hEnds : ∀ c ∈ rest.head?, c.isDigit = false := fun c hc => (hRest c hc).1
  cases h with
  | whole hDigits =>
    have hScan := afterDigits?_eq_some_iff.mpr ⟨mantissa, hDigits, rfl, hEnds⟩
    unfold afterMantissa?
    split
    · next hText => exact absurd hText (ne_point_of_isDigits hDigits)
    · rw [hScan]
      split
      · next hPoint =>
        cases hPoint
        exact absurd rfl (hRest '.' rfl).2
      · rfl
  | @point ds es hDigits hFraction =>
    have hPoint : ∀ c ∈ ('.' :: (es ++ rest)).head?, c.isDigit = false := by
      rintro c ⟨⟩
      decide
    have hScan := afterDigits?_eq_some_iff.mpr ⟨ds, hDigits, rfl, hPoint⟩
    rw [List.append_assoc, List.cons_append]
    unfold afterMantissa?
    split
    · next hText => exact absurd hText (ne_point_of_isDigits hDigits)
    · rw [hScan]
      exact congrArg some (takeWhile_dropWhile_eq_iff.mpr ⟨rfl, hFraction, hEnds⟩).2
  | fraction hDigits => exact afterDigits?_eq_some_iff.mpr ⟨_, hDigits, rfl, hEnds⟩

theorem exists_exponent (h : afterExponent? s = some rest) :
    ∃ exponent, IsExponent exponent ∧ s = exponent ++ rest := by
  have hMarked {mark : Char} {after : List Char} (hMark : mark ∈ ['e', 'E'])
      (hAfter : afterDigits? (afterSign after) = some rest) :
      ∃ exponent, IsExponent exponent ∧ mark :: after = exponent ++ rest := by
    obtain ⟨sign, hSign, hText⟩ := exists_sign after
    obtain ⟨ds, hDigits, hBehind, -⟩ := afterDigits?_eq_some_iff.mp hAfter
    refine ⟨mark :: (sign ++ ds), .marked hMark hSign hDigits, ?_⟩
    rw [hBehind] at hText
    rw [hText, List.cons_append, List.append_assoc]
  unfold afterExponent? at h
  split at h
  · exact hMarked (by simp) h
  · exact hMarked (by simp) h
  · cases h
    exact ⟨[], .none, rfl⟩

theorem afterExponent?_append {exponent : List Char} (h : IsExponent exponent)
    (hRest : ∀ c ∈ rest.head?, c.isDigit = false ∧ c ≠ 'e' ∧ c ≠ 'E') :
    afterExponent? (exponent ++ rest) = some rest := by
  cases h with
  | none =>
    rw [List.nil_append]
    unfold afterExponent?
    split
    · exact absurd rfl (hRest 'e' rfl).2.1
    · exact absurd rfl (hRest 'E' rfl).2.2
    · rfl
  | @marked mark sign ds hMark hSign hDigits =>
    have hScan : afterDigits? (ds ++ rest) = some rest :=
      afterDigits?_eq_some_iff.mpr ⟨ds, hDigits, rfl, fun c hc => (hRest c hc).1⟩
    have hSigned : afterSign (sign ++ (ds ++ rest)) = ds ++ rest := by
      refine afterSign_append hSign fun c hc => ?_
      obtain ⟨d, ds, rfl⟩ := List.exists_cons_of_ne_nil hDigits.1
      cases hc
      exact Json.Numeral.isDigit_ne_sign (hDigits.2 c List.mem_cons_self)
    rw [List.cons_append, List.append_assoc]
    simp only [List.mem_cons, List.not_mem_nil, or_false] at hMark
    rcases hMark with rfl | rfl <;> rw [afterExponent?, hSigned, hScan]

/-! ### Numeric texts -/

theorem isNumeral_of_spellsNumber (h : spellsNumber s = true) : IsNumeral s := by
  unfold spellsNumber at h
  split at h
  · next after hScan =>
    obtain ⟨behind, hMantissa, hExponent⟩ := Option.bind_eq_some_iff.mp hScan
    obtain ⟨sign, hSign, hSigned⟩ := exists_sign (s.dropWhile isPadding)
    obtain ⟨mantissa, hIsMantissa, hBehind⟩ := exists_mantissa hMantissa
    obtain ⟨exponent, hIsExponent, hAfter⟩ := exists_exponent hExponent
    have hText : s = s.takeWhile isPadding ++ (sign ++ (mantissa ++ (exponent ++ after))) := by
      rw [← hAfter, ← hBehind, ← hSigned, List.takeWhile_append_dropWhile]
    rw [hText]
    refine .intro (fun c hc => isPadding_iff.mp (List.mem_takeWhile_imp hc)) hSign hIsMantissa
      hIsExponent fun c hc => isPadding_iff.mp ?_
    exact List.all_eq_true.mp h c hc
  · cases h

theorem spellsNumber_of_isNumeral (h : IsNumeral s) : spellsNumber s = true := by
  cases h with
  | @intro before sign mantissa exponent after hBefore hSign hMantissa hExponent hAfter =>
    obtain ⟨c, t, hCons, hc⟩ := hMantissa.exists_head
    have hBehindExponent : ∀ d ∈ after.head?, d ∈ padding := fun d hd =>
      hAfter d (List.mem_of_mem_head? hd)
    have hBehindMantissa :
        ∀ d ∈ (exponent ++ after).head?, d.isDigit = false ∧ d ≠ '.' := by
      refine Json.Numeral.head?_append_of_marks hExponent.eq_nil_or_marked ?_ fun d hd => ?_
      · exact List.forall_mem_cons.mpr ⟨by decide, List.forall_mem_singleton.mpr (by decide)⟩
      · obtain ⟨hDigit, hPoint, -⟩ := padding_not_mark (hBehindExponent d hd)
        exact ⟨hDigit, hPoint⟩
    have hSigned : afterSign (sign ++ (mantissa ++ (exponent ++ after))) =
        mantissa ++ (exponent ++ after) := by
      refine afterSign_append hSign fun d hd => ?_
      rw [hCons] at hd
      cases hd
      rcases hc with hc | rfl
      · exact Json.Numeral.isDigit_ne_sign hc
      · decide
    have hFront : ∀ d ∈ (sign ++ (mantissa ++ (exponent ++ after))).head?, isPadding d = false := by
      refine Json.Numeral.head?_append_of_marks hSign.eq_nil_or_marked ?_ fun d hd => ?_
      · exact List.forall_mem_cons.mpr ⟨by decide, List.forall_mem_singleton.mpr (by decide)⟩
      · rw [hCons] at hd
        cases hd
        exact not_isPadding_of_mark (hc.imp_right fun hPoint => by simp [hPoint])
    have hDrop := (takeWhile_dropWhile_eq_iff.mpr
      ⟨rfl, fun d hd => isPadding_iff.mpr (hBefore d hd), hFront⟩).2
    have hEnd : afterExponent? (exponent ++ after) = some after := by
      refine afterExponent?_append hExponent fun d hd => ?_
      obtain ⟨hDigit, -, hSmall, hGreat⟩ := padding_not_mark (hBehindExponent d hd)
      exact ⟨hDigit, hSmall, hGreat⟩
    rw [spellsNumber, hDrop, hSigned, afterMantissa?_append hMantissa hBehindMantissa,
      Option.bind_some, hEnd]
    exact List.all_eq_true.mpr fun d hd => isPadding_iff.mpr (hAfter d hd)

/-- A number in JSON is one, without white space around it. -/
theorem isNumeral_of_isNumber (h : Json.IsNumber s) : IsNumeral s := by
  cases h with
  | @intro sign whole fraction exponent hSign hWhole hFraction hExponent =>
    have hDigits : IsDigits whole := by
      rcases hWhole with rfl | ⟨h, -⟩
      · exact ⟨List.cons_ne_nil _ _, List.forall_mem_singleton.mpr (by decide)⟩
      · exact h
    have hMantissa : IsMantissa (whole ++ fraction) := by
      rcases hFraction with rfl | ⟨ds, hDs, rfl⟩
      · simpa using IsMantissa.whole hDigits
      · exact .point hDigits hDs.2
    have hIsExponent : IsExponent exponent := by
      rcases hExponent with rfl | ⟨mark, hMark, sign, hSign, ds, hDs, rfl⟩
      · exact .none
      · exact .marked hMark hSign hDs
    have hIsSign : IsSign sign := by
      rcases hSign with rfl | rfl <;> simp [IsSign]
    have hNumeral : IsNumeral ([] ++ (sign ++ (whole ++ fraction ++ (exponent ++ [])))) :=
      .intro (fun c hc => absurd hc List.not_mem_nil) hIsSign hMantissa hIsExponent
        fun c hc => absurd hc List.not_mem_nil
    simpa using hNumeral

/-- A text is numeric when it is a number as it is written, and only then; so are the decimal form
of an integer of 64 bits and every number in JSON. -/
theorem isNumeric_iff_isNumeral :
    (∀ s : String, isNumeric s = true ↔ IsNumeral s.toList) ∧
    (∀ i : Int64, isNumeric (Decimal.text i.toInt) = true) ∧
    ∀ s : String, Json.IsNumber s.toList → isNumeric s = true := by
  refine ⟨fun s => ⟨isNumeral_of_spellsNumber, spellsNumber_of_isNumeral⟩, fun i => ?_,
    fun s h => spellsNumber_of_isNumeral (isNumeral_of_isNumber h)⟩
  exact spellsNumber_of_isNumeral (isNumeral_of_isNumber (Decimal.isNumber_text i.toInt))

/-- A fraction alone with signs and white space, the least integer, and a zero with a sign and an
exponent. -/
theorem isNumeric_iff_isNumeral_signed :
    isNumeric "\t-.5E+07\x0c" = true ∧ isNumeric "-9223372036854775808" = true ∧
    isNumeric "-0.0e-0" = true := by
  have hDigits {c : Char} (h : c.isDigit = true) : IsDigits [c] :=
    ⟨List.cons_ne_nil _ _, List.forall_mem_singleton.mpr h⟩
  have hSeven : IsDigits ['0', '7'] := ⟨by decide, List.forall_mem_cons.mpr
    ⟨by decide, List.forall_mem_singleton.mpr (by decide)⟩⟩
  have hNumeral : IsNumeral (['\t'] ++ (['-'] ++ (['.', '5'] ++ (('E' :: (['+'] ++ ['0', '7'])) ++
      ['\x0c'])))) :=
    .intro (by simp [padding]) (by simp [IsSign]) (.fraction (hDigits (by decide)))
      (.marked (by simp) (by simp [IsSign]) hSeven) (by simp [padding])
  have hNumber :
      Json.IsNumber (['-'] ++ (['0'] ++ (('.' :: ['0']) ++ ('e' :: (['-'] ++ ['0']))))) :=
    .intro (.inr rfl) (.inl rfl) (.inr ⟨['0'], hDigits (by decide), rfl⟩)
      (.inr ⟨'e', by simp, ['-'], by simp, ['0'], hDigits (by decide), rfl⟩)
  obtain ⟨hText, hInteger, hJson⟩ := isNumeric_iff_isNumeral
  exact ⟨(hText _).mpr hNumeral, hInteger Int64.minValue, hJson _ hNumber⟩

end Conformance.Text
