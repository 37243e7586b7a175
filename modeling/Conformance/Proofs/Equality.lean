import Conformance.Proofs.EqualValues

/-! Equality of values as a relation.  Arrays are compared entry by entry in one direction only;
with distinct keys and arrays of one size that is enough for both, so equality is symmetric and
transitive.  It is not reflexive: a value differs from itself just when a not-a-number stands
somewhere in it. -/

namespace Conformance.Value

/-- A float that is the value itself, or that stands in an array at any depth. -/
inductive HasFloat (x : Binary64) : Value → Prop where
  | self : HasFloat x (.float x)
  | entry {entries : List (Key × Value)} {e : Key × Value} (mem : e ∈ entries)
      (inside : HasFloat x e.2) : HasFloat x (.array entries)

variable {a b c : Value} {entries others : List (Key × Value)} {x : Binary64}

@[simp] theorem hasFloat_float_iff {y : Binary64} : HasFloat x (.float y) ↔ x = y := by
  constructor
  · intro h
    cases h
    rfl
  · rintro rfl
    exact .self

@[simp] theorem hasFloat_array_iff :
    HasFloat x (.array entries) ↔ ∃ e ∈ entries, HasFloat x e.2 := by
  constructor
  · intro h
    cases h with
    | entry mem inside => exact ⟨_, mem, inside⟩
  · rintro ⟨e, mem, inside⟩
    exact .entry mem inside

/-- Equal values are two arrays, two equal floats, or the same value. -/
theorem array_or_float_or_eq (h : a.equal b = true) :
    (∃ entries others, a = .array entries ∧ b = .array others) ∨
      (∃ x y, a = .float x ∧ b = .float y ∧ x.equal y = true) ∨ a = b := by
  unfold equal at h
  split at h
  · simp
  · simp_all
  · simp_all
  · next x y => exact .inr (.inl ⟨x, y, rfl, rfl, h⟩)
  · simp_all
  · next entries others => exact .inl ⟨entries, others, rfl, rfl⟩
  · simp_all
  · simp_all
  · simp_all
  · cases h

/-- An array with distinct keys meets itself entry by entry. -/
theorem equal_array_self_iff (h : (entries.map Prod.fst).Nodup) :
    (Value.array entries).equal (.array entries) = true ↔ ∀ e ∈ entries, e.2.equal e.2 = true := by
  rw [equal_array_iff, and_iff_right rfl]
  refine forall₂_congr fun e he => ?_
  simp [Entries.get?_of_mem h he]

theorem equal_symm (ha : a.Keyed) (hb : b.Keyed) (h : a.equal b = true) : b.equal a = true := by
  induction ha generalizing b with
  | @array entries distinct values ih =>
    rcases array_or_float_or_eq h with ⟨_, others, ⟨⟩, rfl⟩ | ⟨x, y, ⟨⟩, -⟩ | rfl
    · obtain ⟨hOthers, hValues⟩ := keyed_array_iff.mp hb
      have hLength := (equal_array_iff.mp h).1
      apply equal_array_iff.mpr
      refine ⟨hLength.symm, fun e he => ?_⟩
      obtain ⟨v, hMem, hEqual⟩ := counterparts_of_equal distinct hOthers h e he
      exact ⟨v, Entries.get?_of_mem distinct hMem, ih _ hMem (hValues e he) hEqual⟩
    · exact h
  | @other v hOther =>
    rcases array_or_float_or_eq h with ⟨entries, _, rfl, -⟩ | ⟨x, y, rfl, rfl, hFloat⟩ | rfl
    · exact absurd rfl (hOther entries)
    · rw [equal, Binary64.equal_comm]
      exact hFloat
    · exact h

theorem equal_trans (ha : a.Keyed) (hab : a.equal b = true) (hbc : b.equal c = true) :
    a.equal c = true := by
  induction ha generalizing b c with
  | @array entries distinct values ih =>
    rcases array_or_float_or_eq hab with ⟨_, middle, ⟨⟩, rfl⟩ | ⟨x, y, ⟨⟩, -⟩ | rfl
    · rcases array_or_float_or_eq hbc with ⟨_, others, ⟨⟩, rfl⟩ | ⟨x, y, ⟨⟩, -⟩ | rfl
      · obtain ⟨hFirst, hMiddle⟩ := equal_array_iff.mp hab
        obtain ⟨hSecond, hOthers⟩ := equal_array_iff.mp hbc
        apply equal_array_iff.mpr
        refine ⟨hFirst.trans hSecond, fun e he => ?_⟩
        obtain ⟨v, hFound, hv⟩ := hMiddle e he
        obtain ⟨w, hLast, hw⟩ := hOthers (e.1, v) (Entries.mem_of_get? hFound)
        exact ⟨w, hLast, ih e he hv hw⟩
      · exact hab
    · exact hbc
  | @other v hOther =>
    rcases array_or_float_or_eq hab with ⟨entries, _, rfl, -⟩ | ⟨x, y, rfl, rfl, hxy⟩ | rfl
    · exact absurd rfl (hOther entries)
    · rcases array_or_float_or_eq hbc with ⟨_, _, ⟨⟩, -⟩ | ⟨_, z, ⟨⟩, rfl, hyz⟩ | rfl
      · rw [equal]
        exact Binary64.equal_trans hxy hyz
      · exact hab
    · exact hbc

theorem equal_self_iff (ha : a.Keyed) :
    a.equal a = true ↔ ∀ x, HasFloat x a → x.isNaN = false := by
  induction ha with
  | @array entries distinct values ih =>
    rw [equal_array_self_iff distinct]
    constructor
    · intro h x hFloat
      obtain ⟨e, he, hInside⟩ := hasFloat_array_iff.mp hFloat
      exact (ih e he).mp (h e he) x hInside
    · intro h e he
      exact (ih e he).mpr fun x hInside => h x (.entry he hInside)
  | @other v hOther =>
    cases v with
    | array entries => exact absurd rfl (hOther entries)
    | float y => simp [equal, Binary64.equal_self]
    | _ =>
      apply iff_of_true
      · simp [equal]
      · intro x hFloat
        cases hFloat

/-- On values whose arrays have distinct keys, equality is symmetric and transitive, and a value is
equal to itself just when no float in it, at any depth, is a not-a-number. -/
theorem equal_partialEquivalence :
    (∀ a b : Value, a.Keyed → b.Keyed → a.equal b = true → b.equal a = true) ∧
    (∀ a b c : Value, a.Keyed → b.Keyed → c.Keyed →
      a.equal b = true → b.equal c = true → a.equal c = true) ∧
    ∀ a : Value, a.Keyed → (a.equal a = true ↔ ∀ x, HasFloat x a → x.isNaN = false) := by
  refine ⟨?_, ?_, ?_⟩
  · intro a b ha hb h
    exact equal_symm ha hb h
  · intro a b c ha _ _ hab hbc
    exact equal_trans ha hab hbc
  · intro a ha
    exact equal_self_iff ha

/-- A table with a zero and an empty array. -/
def zeroTable (negative : Bool) : Value :=
  .array [(.int 0, .float (.zero negative)), (.text "rest", .array [])]

/-- The order of entries and the sign of a zero make no difference; a not-a-number within arrays
does. -/
theorem equal_partialEquivalence_zeros :
    (zeroTable true).equal (zeroTable false) = true ∧
    (Value.array [(.text "rest", .array []), (.int 0, .float (.zero true))]).equal
      (zeroTable true) = true ∧
    (Value.array [(.int 7, .array [(.int 0, .float ⟨0x7FF8000000000000⟩)])]).equal
      (.array [(.int 7, .array [(.int 0, .float ⟨0x7FF8000000000000⟩)])]) = false := by
  have hFloat (x : Binary64) : Keyed (.float x) := .other nofun
  have hTable (negative : Bool) : (zeroTable negative).Keyed := by
    simp [zeroTable, keyed_array_iff, hFloat]
  have hSwapped (negative : Bool) :
      Keyed (.array [(.text "rest", .array []), (.int 0, .float (.zero negative))]) := by
    simp [keyed_array_iff, hFloat]
  obtain ⟨hSymm, hTrans, hSelf⟩ := equal_partialEquivalence
  have hZeros := hSymm _ _ (hTable false) (hTable true) (by decide +kernel)
  have hMiddle := hSymm _ _ (hTable false) (hSwapped true) (by decide +kernel)
  refine ⟨hZeros, ?_, ?_⟩
  · exact hTrans _ _ _ (hSwapped true) (hTable false) (hTable true) hMiddle (by decide +kernel)
  · apply Bool.eq_false_iff.mpr
    intro hEqual
    have hNumber := (hSelf _ (by simp [keyed_array_iff, hFloat])).mp hEqual ⟨0x7FF8000000000000⟩
      (by simp)
    exact absurd hNumber (by decide)

end Conformance.Value
