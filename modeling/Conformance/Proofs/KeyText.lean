import Conformance.Proofs.DecimalText

/-! Keys named by texts.  A text names an integer just when it is the canonical decimal form of one
that fits 64 bits, and any other text names itself; so no two texts name the same key, and the key
that a text names is shown as that text. -/

namespace Conformance

/-! ### Canonical decimal forms -/

namespace Decimal

/-- Digits that do not begin with a zero, for a number that is not zero. -/
structure Unpadded (ds : List Char) : Prop where
  digits : Json.IsDigits ds
  lead : ds.head? ≠ some '0'

/-- The canonical decimal form of an integer: a zero alone, or digits that do not begin with a zero,
with a minus sign in front where the integer is negative. -/
inductive Canonical : List Char → Int → Prop where
  | zero : Canonical ['0'] 0
  | positive {ds : List Char} (h : Unpadded ds) : Canonical ds (Nat.ofDigitChars 10 ds 0)
  | negative {ds : List Char} (h : Unpadded ds) : Canonical ('-' :: ds) (-Nat.ofDigitChars 10 ds 0)

theorem digitChar_of_isDigit {c : Char} (h : c.isDigit = true) :
    c.toNat - '0'.toNat < 10 ∧ Nat.digitChar (c.toNat - '0'.toNat) = c := by
  obtain ⟨hLow, hHigh⟩ := Char.isDigit_iff_toNat.mp h
  have hZero : '0'.toNat = 48 := rfl
  have hNine : '9'.toNat = 57 := rfl
  have hSmall : c.toNat - '0'.toNat < 10 := by omega
  refine ⟨hSmall, Char.toNat_inj.mp ?_⟩
  rw [Nat.toNat_digitChar_of_lt_ten hSmall]
  omega

/-- Digits behind those of a number that is not zero are the last digits of what they make of it. -/
theorem digits_append {ds : List Char} (h : ∀ c ∈ ds, c.isDigit = true) {n : Nat} (hn : 0 < n) :
    digits n ++ ds = digits (Nat.ofDigitChars 10 ds n) := by
  induction ds generalizing n with
  | nil => simp [Nat.ofDigitChars]
  | cons c ds ih =>
    obtain ⟨hSmall, hChar⟩ := digitChar_of_isDigit (h c List.mem_cons_self)
    have hNext := Nat.toDigits_append_toDigits (b := 10) (by omega) hn hSmall
    rw [Nat.toDigits_of_lt_base hSmall, hChar] at hNext
    have hRest := ih (fun d hd => h d (List.mem_cons_of_mem c hd))
      (n := 10 * n + (c.toNat - '0'.toNat)) (by omega)
    calc
      digits n ++ c :: ds = (digits n ++ [c]) ++ ds := by simp
      _ = digits (10 * n + (c.toNat - '0'.toNat)) ++ ds := by rw [digits, hNext, digits]
      _ = digits (Nat.ofDigitChars 10 (c :: ds) n) := hRest

/-- Without a leading zero the digits of a number are the only ones that spell it. -/
theorem Unpadded.digits_eq {ds : List Char} (h : Unpadded ds) :
    0 < Nat.ofDigitChars 10 ds 0 ∧ Decimal.digits (Nat.ofDigitChars 10 ds 0) = ds := by
  obtain ⟨⟨hne, hDigits⟩, hLead⟩ := h
  obtain ⟨c, ds, rfl⟩ := List.exists_cons_of_ne_nil hne
  obtain ⟨hSmall, hChar⟩ := digitChar_of_isDigit (hDigits c List.mem_cons_self)
  have hPos : 0 < c.toNat - '0'.toNat := by
    apply Nat.pos_of_ne_zero
    intro hZero
    rw [hZero] at hChar
    exact hLead (by rw [← hChar]; rfl)
  have hRest := digits_append (fun d hd => hDigits d (List.mem_cons_of_mem c hd)) hPos
  rw [Decimal.digits, Nat.toDigits_of_lt_base hSmall, hChar] at hRest
  have hValue : Nat.ofDigitChars 10 (c :: ds) 0 =
      Nat.ofDigitChars 10 ds (c.toNat - '0'.toNat) := by
    simp [Nat.ofDigitChars]
  rw [hValue]
  refine ⟨Nat.pos_of_ne_zero fun hZero => hLead ?_, hRest.symm⟩
  rw [hZero] at hRest
  rw [show c :: ds = ['0'] from hRest, List.head?_cons]

theorem unpadded_digits {n : Nat} (h : 0 < n) : Unpadded (digits n) :=
  ⟨isDigits_digits n, head?_digits_ne h⟩

/-- The text of an integer is its canonical form, and it has no other. -/
theorem canonical_iff {s : List Char} {i : Int} : Canonical s i ↔ (text i).toList = s := by
  constructor
  · intro h
    cases h with
    | zero => rfl
    | positive h =>
      obtain ⟨hPos, hDigits⟩ := h.digits_eq
      rw [toList_text, sign, if_neg (by omega), Int.natAbs_natCast, hDigits]
      rfl
    | negative h =>
      obtain ⟨hPos, hDigits⟩ := h.digits_eq
      rw [toList_text, sign, if_pos (by omega), Int.natAbs_neg, Int.natAbs_natCast, hDigits]
      rfl
  · rintro rfl
    have hValue : Nat.ofDigitChars 10 (digits i.natAbs) 0 = i.natAbs := value_digits i.natAbs
    rw [toList_text, sign]
    rcases Int.lt_trichotomy i 0 with hNegative | rfl | hPositive
    · have hForm := Canonical.negative (unpadded_digits (n := i.natAbs) (by omega))
      rw [hValue, show -(i.natAbs : Int) = i by omega] at hForm
      rwa [if_pos hNegative]
    · exact .zero
    · have hForm := Canonical.positive (unpadded_digits (n := i.natAbs) (by omega))
      rw [hValue, show (i.natAbs : Int) = i by omega] at hForm
      rwa [if_neg (by omega)]

end Decimal

open Decimal

/-! ### The key that a text names -/

namespace Key

theorem ofText_eq_int_iff {s : String} {i : Int64} :
    ofText s = .int i ↔ Canonical s.toList i.toInt := by
  rw [canonical_iff, String.toList_inj]
  constructor
  · intro h
    simpa [h, display] using display_ofText s
  · rintro rfl
    exact ofText_text i

theorem normal_iff_not_canonical {key : Key} :
    key.Normal ↔ ¬∃ (s : String) (i : Int64), key = .text s ∧ Canonical s.toList i.toInt := by
  cases key with
  | int i => simp [Normal]
  | text s => simp [Normal, canonical_iff, String.toList_inj]

/-- The key that a text names is shown as that text.  It is an integer just when the text is the
canonical decimal form of that integer; so different texts name different keys, and a key is named
by the text it is shown as, unless it is a text that is the canonical form of an integer. -/
theorem ofText_spelling :
    (∀ s : String, (ofText s).display = s) ∧
    (∀ (s : String) (i : Int64), ofText s = .int i ↔ Canonical s.toList i.toInt) ∧
    Function.Injective ofText ∧
    ∀ key : Key, ofText key.display = key ↔
      ¬∃ (s : String) (i : Int64), key = .text s ∧ Canonical s.toList i.toInt := by
  refine ⟨display_ofText, fun s i => ofText_eq_int_iff, ?_, fun key => ?_⟩
  · exact Function.LeftInverse.injective display_ofText
  · rw [← normal_iff, normal_iff_not_canonical]

/-- The least integer of 64 bits is named by its digits behind a minus sign, and a zero behind a
minus sign names another key than the zero does. -/
theorem ofText_spelling_limits :
    ofText "-9223372036854775808" = .int Int64.minValue ∧ ofText "-0" ≠ ofText "0" := by
  obtain ⟨-, hInteger, hInjective, -⟩ := ofText_spelling
  constructor
  · apply (hInteger "-9223372036854775808" Int64.minValue).mpr
    exact canonical_iff.mpr (by decide)
  · intro hSame
    exact absurd (hInjective hSame) (by decide)

end Key

end Conformance
