import Conformance.Proofs.Spelling
import Conformance.Value.Basic

/-! The decimal text of an integer: digits without a leading zero behind a minus sign or none.  It
is read back as the integer, as a number in JSON and as a key.  Every other number in JSON is read
as a float, which is finite; its digits are all reckoned with as long as they fit in 64 bits. -/

namespace Conformance

/-! ### Digits -/

namespace Decimal

theorem value_digits (n : Nat) : value (digits n) = n := Nat.ofDigitChars_ten_toDigits

theorem isDigits_digits (n : Nat) : Json.IsDigits (digits n) :=
  ⟨Nat.toDigits_ne_nil, fun _ hc => Nat.isDigit_of_mem_toDigits (by decide) (by decide) hc⟩

theorem head?_digits_ne {n : Nat} (h : 0 < n) : (digits n).head? ≠ some '0' := by
  induction n using Nat.strongRecOn with
  | ind n ih =>
    by_cases hSmall : n < 10
    · have hAll : ∀ m < 10, 0 < m → (digits m).head? ≠ some '0' := by decide
      exact hAll n hSmall h
    · -- The last digit comes off the end and leaves the first where it is.
      have hLast : digits n = digits (n / 10) ++ [Nat.digitChar (n % 10)] :=
        Nat.toDigits_of_base_le (by decide) (by omega)
      obtain ⟨c, ds, hCons⟩ := List.exists_cons_of_ne_nil (isDigits_digits (n / 10)).1
      have hHead := ih (n / 10) (by omega) (by omega)
      rw [hCons] at hHead
      rw [hLast, hCons]
      exact hHead

/-- The digits of a number are a zero alone, or they begin with another digit. -/
theorem digits_whole (n : Nat) :
    digits n = ['0'] ∨ Json.IsDigits (digits n) ∧ (digits n).head? ≠ some '0' := by
  rcases Nat.eq_zero_or_pos n with rfl | hPos
  · exact .inl rfl
  · exact .inr ⟨isDigits_digits n, head?_digits_ne hPos⟩

/-- The sign in front of the digits. -/
def sign (i : Int) : List Char := if i < 0 then ['-'] else []

theorem toList_text (i : Int) : (text i).toList = sign i ++ digits i.natAbs := by
  rw [text, String.toList_ofList, sign]
  split <;> rfl

theorem isNumber_text (i : Int) : Json.IsNumber (text i).toList := by
  have hNumber : Json.IsNumber (sign i ++ (digits i.natAbs ++ ([] ++ []))) := by
    refine .intro ?_ (digits_whole i.natAbs) (.inl rfl) (.inl rfl)
    rw [sign]
    split
    · exact .inr rfl
    · exact .inl rfl
  rw [toList_text]
  simpa using hNumber

/-- The digits do not begin with a sign. -/
theorem digits_eq_cons (n : Nat) : ∃ c ds, digits n = c :: ds ∧ c ≠ '+' ∧ c ≠ '-' := by
  obtain ⟨hne, hDigits⟩ := isDigits_digits n
  obtain ⟨c, ds, hCons⟩ := List.exists_cons_of_ne_nil hne
  rw [hCons] at hDigits
  exact ⟨c, ds, hCons, Json.Numeral.isDigit_ne_sign (hDigits c List.mem_cons_self)⟩

theorem toInt?_text (i : Int) : toInt? (text i).toList = some i := by
  obtain ⟨hne, hDigits⟩ := isDigits_digits i.natAbs
  have hAll : ((digits i.natAbs).isEmpty || !(digits i.natAbs).all Char.isDigit) = false := by
    simp only [List.isEmpty_eq_false_iff.mpr hne, List.all_eq_true.mpr hDigits]
    rfl
  rw [toList_text, sign]
  split
  · next hNegative =>
    rw [List.singleton_append, toInt?, if_neg (by rw [hAll]; decide), value_digits, if_pos rfl]
    exact congrArg some (by omega)
  · next hNegative =>
    obtain ⟨c, ds, hCons, -, hMinus⟩ := digits_eq_cons i.natAbs
    rw [List.nil_append, toInt?, if_neg (by rw [hAll]; decide), value_digits, if_neg (by decide)]
    · exact congrArg some (by omega)
    · intro body hBody
      rw [hCons] at hBody
      exact hMinus (List.cons.inj hBody).1

end Decimal

theorem int64?_toInt (i : Int64) : int64? i.toInt = some i := by
  have hLow := i.minValue_le_toInt
  have hHigh := i.toInt_le
  have hRange : (Int64.minValue.toInt ≤ i.toInt && i.toInt ≤ Int64.maxValue.toInt) = true := by
    rw [Bool.and_eq_true, decide_eq_true_eq, decide_eq_true_eq]
    exact ⟨hLow, hHigh⟩
  rw [int64?, if_pos hRange, Int64.ofInt_toInt]

namespace Key

/-- A key that is no text which looks like an integer of 64 bits. -/
def Normal : Key → Prop
  | int _ => True
  | text s => ∀ i : Int64, Decimal.text i.toInt ≠ s

theorem ofText_text (i : Int64) : ofText (Decimal.text i.toInt) = int i := by
  rw [ofText, Decimal.toInt?_text, Option.bind_some, int64?_toInt]
  exact if_pos rfl

theorem normal_iff {key : Key} : key.Normal ↔ ofText key.display = key := by
  cases key with
  | int i => exact iff_of_true trivial (ofText_text i)
  | text s =>
    rw [Normal, display]
    constructor
    · intro h
      rw [ofText]
      split
      · next i _ => exact if_neg (h i)
      · rfl
    · rintro h i rfl
      rw [ofText_text] at h
      cases h

end Key

/-! ### Numbers -/

namespace Json.Numeral

theorem minus_text (i : Int) (rest : List Char) :
    minus ((Decimal.text i).toList ++ rest) =
      (decide (i < 0), Decimal.digits i.natAbs ++ rest) := by
  rw [Decimal.toList_text, Decimal.sign]
  split
  · next hNegative =>
    rw [decide_eq_true hNegative]
    rfl
  · next hNegative =>
    obtain ⟨c, ds, hCons, -, hMinus⟩ := Decimal.digits_eq_cons i.natAbs
    rw [decide_eq_false hNegative, hCons, List.nil_append, List.cons_append, minus_of_ne hMinus]

theorem scan_text (atEnd : Cause) (i : Int) {rest : List Char} (hEnds : EndsNumber rest) :
    scan atEnd ((Decimal.text i).toList ++ rest) =
      .ok (⟨decide (i < 0), Decimal.digits i.natAbs, [], false, []⟩, rest) := by
  refine scan_eq_ok_iff.mpr ⟨rest, rest, ?_, ?_, ?_, ?_⟩
  · rw [minus_text]
  · rw [minus_text]
    exact scanWhole_append atEnd (Decimal.digits_whole i.natAbs) fun c hc => (hEnds c hc).1
  · exact scanFraction_of_head atEnd fun c hc => (hEnds c hc).2.1
  · exact scanExponent_of_head atEnd fun c hc => (hEnds c hc).2.2

theorem toInteger?_text (i : Int64) :
    toInteger? ⟨decide (i.toInt < 0), Decimal.digits i.toInt.natAbs, [], false, []⟩ =
      some i.toInt := by
  have hLow := i.minValue_le_toInt
  have hHigh := i.toInt_le
  have hMost : Int64.maxValue.toInt = 9223372036854775807 := by decide
  have hSize : UInt64.size = 18446744073709551616 := by decide
  simp only [toInteger?, mantissa, List.append_nil, Decimal.value_digits, List.isEmpty_nil,
    Bool.not_true, Bool.or_self, Bool.false_eq_true, if_false, decide_eq_true_eq, Bool.and_eq_true]
  split
  · next hNegative =>
    rw [if_pos ⟨by omega, by omega⟩]
    exact congrArg some (by omega)
  · next hNegative =>
    rw [if_pos (by omega)]
    exact congrArg some (by omega)

/-- An integer of 64 bits is read as itself. -/
theorem read_text (i : Int64) {rest : List Char} (hEnds : EndsNumber rest) :
    Numeral.reader.read ((Decimal.text i.toInt).toList ++ rest) = .ok (.integer i.toInt, rest) := by
  unfold Numeral.reader
  dsimp only
  rw [readNumber_eq_ok_iff]
  refine ⟨_, scan_text .endInValue i.toInt hEnds, ?_⟩
  rw [toDocument, toInteger?_text]

end Json.Numeral

/-! ### Floats -/

namespace Decimal

theorem value_nil : value [] = 0 := rfl

theorem value_append_singleton (ds : List Char) (c : Char) :
    value (ds ++ [c]) = 10 * value ds + (c.toNat - '0'.toNat) := by
  rw [value, List.foldl_append]
  rfl

theorem value_le_value_append (ds more : List Char) : value ds ≤ value (ds ++ more) := by
  induction more generalizing ds with
  | nil => exact Nat.le_of_eq (congrArg value (List.append_nil ds).symm)
  | cons c more ih =>
    have hRest := ih (ds ++ [c])
    rw [value_append_singleton, List.append_assoc, List.singleton_append] at hRest
    omega

end Decimal

namespace Json.Numeral

/-- Digits that keep the significand within 64 bits are all taken. -/
theorem gather_value (front : List Char) {ds : List Char}
    (h : Decimal.value (front ++ ds) < UInt64.size) :
    gather (Decimal.value front) ds = (Decimal.value (front ++ ds), []) := by
  induction ds generalizing front with
  | nil => rw [gather, List.append_nil]
  | cons c ds ih =>
    have hSplit : front ++ c :: ds = front ++ [c] ++ ds := by simp
    rw [hSplit] at h ⊢
    have hNext := Nat.lt_of_le_of_lt (Decimal.value_le_value_append (front ++ [c]) ds) h
    rw [gather, ← Decimal.value_append_singleton, if_pos hNext]
    exact ih (front ++ [c]) h

theorem gather_lt {m : Nat} (h : m < UInt64.size) (ds : List Char) :
    (gather m ds).1 < UInt64.size := by
  induction ds generalizing m with
  | nil => exact h
  | cons c ds ih =>
    rw [gather]
    split
    · next hNext => exact ih hNext
    · exact h

/-- The significand fits in 64 bits, however many digits there are. -/
theorem significand_lt (n : Numeral) : n.parts.1 < UInt64.size := by
  rw [parts]
  exact gather_lt (gather_lt (by decide) n.whole) n.fraction

/-- While the digits fit in 64 bits none is dropped: the significand is the number that they spell,
and its power of ten is that of the last digit. -/
theorem parts_of_mantissa_lt {n : Numeral} (h : n.mantissa < UInt64.size) :
    n.parts = (n.mantissa, -(n.fraction.length : Int)) := by
  have hFront : Decimal.value n.whole < UInt64.size :=
    Nat.lt_of_le_of_lt (Decimal.value_le_value_append n.whole n.fraction) h
  have hWhole := gather_value [] hFront
  rw [Decimal.value_nil, List.nil_append] at hWhole
  rw [parts, hWhole]
  dsimp only
  rw [gather_value n.whole h, mantissa]
  simp

/-- The float of a number is finite. -/
theorem finite_of_toFloat {n : Numeral} {rest : List Char} {x : Binary64}
    (h : n.toFloat rest = .ok x) : x.isNaN = false ∧ x.isInfinite = false := by
  unfold toFloat at h
  dsimp only at h
  split at h
  · split at h <;> cases h
    exact ⟨Binary64.isNaN_ofMagnitude (Nat.zero_le _), by cases n.negative <;> decide⟩
  · generalize hParts : Binary64.ofParts _ _ = y at h
    have hNumber : y.isNaN = false := hParts ▸ Binary64.isNaN_ofParts ..
    split at h
    · cases h
    · next hFinite =>
      rw [Bool.not_eq_true] at hFinite
      cases h
      split
      · rw [Binary64.isNaN_neg, Binary64.isInfinite_neg]
        exact ⟨hNumber, hFinite⟩
      · exact ⟨hNumber, hFinite⟩

-- `3e23` is one unit in the last place below the float nearest to it, and `1.7976931348623158e308`
-- too great, though the greatest float is nearest to it.
example :
    (toFloat ⟨false, ['3'], [], false, "23".toList⟩ []).toOption = some ⟨0x44CFC3842BD1F071⟩ ∧
      Binary64.nearest false (3 * Binary64.tenTo 23) 1 = ⟨0x44CFC3842BD1F072⟩ ∧
      (toFloat ⟨false, ['1'], "7976931348623158".toList, false, "308".toList⟩ []).toOption =
        none := by
  decide +kernel

end Json.Numeral

end Conformance
