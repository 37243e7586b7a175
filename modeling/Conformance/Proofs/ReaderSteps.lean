import Conformance.Json.Record

/-! The readers of numbers, strings, lists and objects step by step: what a reader gives, by what
the readers of the parts give. -/

namespace Conformance.Json

variable {α κ ρ : Type} {s start rest : List Char} {fault : Fault}

/-! ### Results -/

theorem toOption_eq_some_iff {ε : Type} {result : Except ε α} {a : α} :
    result.toOption = some a ↔ result = .ok a := by
  cases result with
  | error e => exact iff_of_false nofun nofun
  | ok b =>
    show some b = some a ↔ _
    rw [Option.some.injEq, Except.ok.injEq]

theorem toOption_eq_none_iff {ε : Type} {result : Except ε α} :
    result.toOption = none ↔ ∃ e, result = .error e := by
  cases result with
  | error e => exact iff_of_true rfl ⟨e, rfl⟩
  | ok a => exact iff_of_false nofun nofun

/-! ### Numbers -/

namespace Numeral

theorem minus_of_ne {c : Char} (hc : c ≠ '-') (s : List Char) :
    minus (c :: s) = (false, c :: s) := by
  unfold minus
  split
  · next h =>
    cases h
    exact absurd rfl hc
  · rfl

theorem scanFraction_of_ne {c : Char} (hc : c ≠ '.') (atEnd : Cause) (s : List Char) :
    scanFraction atEnd (c :: s) = .ok ([], c :: s) := by
  unfold scanFraction
  split
  · next h =>
    cases h
    exact absurd rfl hc
  · rfl

theorem scanFraction_eq_ok {atEnd : Cause} {ds : List Char}
    (h : scanFraction atEnd ('.' :: s) = .ok (ds, rest)) : digits s = (ds, rest) ∧ ds ≠ [] := by
  simp only [scanFraction] at h
  split at h
  · cases h
  · cases h
  · next hNone hDigits =>
    cases h
    refine ⟨hDigits, ?_⟩
    rintro rfl
    exact hNone rfl

theorem scanFraction_of_digits {atEnd : Cause} {ds : List Char} (h : digits s = (ds, rest))
    (hne : ds ≠ []) : scanFraction atEnd ('.' :: s) = .ok (ds, rest) := by
  simp only [scanFraction, h]
  split <;> simp_all

theorem scanSigned_plus (atEnd : Cause) (s : List Char) : scanSigned atEnd ('+' :: s) =
    Reader.mapReading (false, ·) (scanExponentDigits atEnd s) := by
  rw [scanSigned]
  cases scanExponentDigits atEnd s <;> rfl

theorem scanSigned_minus (atEnd : Cause) (s : List Char) : scanSigned atEnd ('-' :: s) =
    Reader.mapReading (true, ·) (scanExponentDigits atEnd s) := by
  rw [scanSigned]
  cases scanExponentDigits atEnd s <;> rfl

theorem scanSigned_of_ne {c : Char} (hPlus : c ≠ '+') (hMinus : c ≠ '-') (atEnd : Cause)
    (s : List Char) : scanSigned atEnd (c :: s) =
      Reader.mapReading (false, ·) (scanExponentDigits atEnd (c :: s)) := by
  rw [scanSigned]
  · cases scanExponentDigits atEnd (c :: s) <;> rfl
  · rintro body ⟨⟩
    exact hPlus rfl
  · rintro body ⟨⟩
    exact hMinus rfl

/-- A number and what it leaves, by its parts. -/
theorem scan_eq_ok_iff {atEnd : Cause} {n : Numeral} : scan atEnd s = .ok (n, rest) ↔
    ∃ s₁ s₂, (minus s).1 = n.negative ∧ scanWhole atEnd (minus s).2 = .ok (n.whole, s₁) ∧
      scanFraction atEnd s₁ = .ok (n.fraction, s₂) ∧
      scanExponent atEnd s₂ = .ok ((n.exponentNegative, n.exponent), rest) := by
  unfold scan
  dsimp only
  constructor
  · intro h
    split at h
    · cases h
    · next hWhole =>
      split at h
      · cases h
      · next hFraction =>
        split at h
        · cases h
        · next hExponent =>
          cases h
          exact ⟨_, _, rfl, hWhole, hFraction, hExponent⟩
  · rintro ⟨s₁, s₂, hMinus, hWhole, hFraction, hExponent⟩
    rw [hWhole]
    dsimp only
    rw [hFraction]
    dsimp only
    rw [hExponent, hMinus]

theorem readNumber_eq_ok_iff {d : Document} : readNumber s = .ok (d, rest) ↔
    ∃ n, scan .endInValue s = .ok (n, rest) ∧ n.toDocument rest = .ok d := by
  unfold readNumber
  constructor
  · intro h
    split at h
    · cases h
    · next n after hScan =>
      split at h
      · next hDocument =>
        cases h
        exact ⟨n, hScan, hDocument⟩
      · cases h
  · rintro ⟨n, hScan, hDocument⟩
    rw [hScan]
    dsimp only
    rw [hDocument]

theorem readNumber_cases {d : Document} (h : readNumber s = .ok (d, rest)) :
    (∃ i, d = .integer i) ∨ ∃ x, d = .float x := by
  obtain ⟨n, -, hDocument⟩ := readNumber_eq_ok_iff.mp h
  unfold toDocument at hDocument
  split at hDocument
  · cases hDocument
    exact .inl ⟨_, rfl⟩
  · cases hFloat : n.toFloat rest with
    | error fault =>
      rw [hFloat] at hDocument
      cases hDocument
    | ok x =>
      rw [hFloat] at hDocument
      cases hDocument
      exact .inr ⟨x, rfl⟩

end Numeral

/-! ### Strings -/

/-- A unit is read when four hexadecimal digits stand at the front. -/
theorem readUnit_eq_ok_iff {n : Nat} : readUnit s = .ok (n, rest) ↔
    ∃ a b c d, s = a :: b :: c :: d :: rest ∧ hexNumber? a b c d = some n := by
  constructor
  · intro h
    unfold readUnit at h
    split at h
    · cases h
    · dsimp only at h
      split at h
      · split at h
        · next hNumber =>
          cases h
          exact ⟨_, _, _, _, rfl, hNumber⟩
        · cases h
      · cases h
  · rintro ⟨a, b, c, d, rfl, hNumber⟩
    have hCount : ¬ byteCount (a :: b :: c :: d :: rest) < 4 := by
      have := a.utf8Size_pos
      have := b.utf8Size_pos
      have := c.utf8Size_pos
      have := d.utf8Size_pos
      simp only [byteCount]
      omega
    simp only [readUnit, if_neg hCount, hNumber]

theorem readSecond_pair (n : Nat) (body : List Char) : readSecond n ('\\' :: 'u' :: body) =
    match readUnit body with
    | .error fault => .error fault
    | .ok (m, rest) =>
      if isSecondSurrogate m then .ok (surrogatePair n m, rest)
      else .error (.here .loneSurrogate rest) := rfl

theorem readSecond_eq_ok_iff {n : Nat} {c : Char} : readSecond n s = .ok (c, rest) ↔
    ∃ body m, s = '\\' :: 'u' :: body ∧ readUnit body = .ok (m, rest) ∧
      isSecondSurrogate m = true ∧ surrogatePair n m = c := by
  constructor
  · intro h
    unfold readSecond at h
    split at h
    · cases h
    · cases h
    · split at h
      · cases h
      · next hUnit =>
        split at h
        · next hSecond =>
          obtain ⟨hPair, rfl⟩ := Prod.mk.inj (Except.ok.inj h)
          exact ⟨_, _, rfl, hUnit, hSecond, hPair⟩
        · cases h
    · cases h
    · cases h
  · rintro ⟨body, m, rfl, hUnit, hSecond, rfl⟩
    rw [readSecond_pair, hUnit]
    exact if_pos hSecond

namespace StringRule

variable {rule : StringRule α}

theorem readString_quote : rule.readString ('"' :: rest) = .ok ([], rest) := by
  rw [readString, if_pos rfl]

theorem readString_escape {a : α}
    (h : readEscape rule.plain rule.units.read s = .ok (a, rest)) :
    rule.readString ('\\' :: s) = Reader.mapReading (a :: ·) (rule.readString rest) := by
  rw [readString, if_neg (by decide), if_pos rfl]
  split
  · next hEscape =>
    rw [h] at hEscape
    cases hEscape
  · next hEscape =>
    rw [h] at hEscape
    cases hEscape
    cases rule.readString rest <;> rfl

theorem readString_fault (h : readEscape rule.plain rule.units.read s = .error fault) :
    rule.readString ('\\' :: s) = .error fault := by
  rw [readString, if_neg (by decide), if_pos rfl]
  split
  · next hEscape =>
    rw [h] at hEscape
    cases hEscape
    rfl
  · next hEscape =>
    rw [h] at hEscape
    cases hEscape

theorem readString_plain {c : Char} (hQuote : c ≠ '"') (hSlash : c ≠ '\\')
    (hControl : ¬ c.toNat < 0x20) :
    rule.readString (c :: s) = Reader.mapReading (rule.plain c :: ·) (rule.readString s) := by
  rw [readString, if_neg hQuote, if_neg hSlash, if_neg hControl]
  cases rule.readString s <;> rfl

end StringRule

/-! ### Lists and objects -/

namespace Punctuation

variable {p : Punctuation}

section Elements

variable {item : Reader α} {index : Nat} {a : α}

theorem readElements_eq : p.readElements item index s =
    match p.elementSlot (index = 0) s with
    | .error fault => .error fault
    | .ok (.close rest) => .ok ([], rest)
    | .ok (.item start) =>
      match item.read start with
      | .error fault => .error (fault.within (.index index))
      | .ok (a, rest) => Reader.mapReading (a :: ·) (p.readElements item (index + 1) rest) := by
  rw [readElements]
  split
  · next h => rw [h]
  · next h => rw [h]
  · next h =>
    rw [h]
    dsimp only
    split
    · next hItem => rw [hItem]
    · next a rest hItem =>
      rw [hItem]
      dsimp only
      cases p.readElements item (index + 1) rest <;> rfl

theorem readElements_close (h : p.elementSlot (index = 0) s = .ok (.close rest)) :
    p.readElements item index s = .ok ([], rest) := by
  rw [readElements_eq, h]

theorem readElements_item (hSlot : p.elementSlot (index = 0) s = .ok (.item start))
    (hItem : item.read start = .ok (a, rest)) :
    p.readElements item index s =
      Reader.mapReading (a :: ·) (p.readElements item (index + 1) rest) := by
  rw [readElements_eq, hSlot]
  dsimp only
  rw [hItem]

theorem readElements_fault (hSlot : p.elementSlot (index = 0) s = .ok (.item start))
    (hItem : item.read start = .error fault) :
    p.readElements item index s = .error (fault.within (.index index)) := by
  rw [readElements_eq, hSlot]
  dsimp only
  rw [hItem]

end Elements

section Members

variable {key : Reader κ} {member : ρ → κ → Reader ρ} {first : Bool} {gathered gathered' : ρ}
  {k : κ} {behind : List Char}

theorem readMembers_eq : p.readMembers key member first gathered s =
    match p.memberSlot first s with
    | .error fault => .error (fault.within .someMember)
    | .ok (.close rest) => .ok (gathered, rest)
    | .ok (.item start) =>
      match key.read start with
      | .error fault => .error (fault.within .someMember)
      | .ok (k, rest) =>
        match (member gathered k).read rest with
        | .error fault => .error fault
        | .ok (gathered, rest) => p.readMembers key member false gathered rest := by
  rw [readMembers]
  split
  · next h => rw [h]
  · next h => rw [h]
  · next h =>
    rw [h]
    dsimp only
    split
    · next hKey => rw [hKey]
    · next hKey =>
      rw [hKey]
      dsimp only
      split
      · next hMember => rw [hMember]
      · next hMember => rw [hMember]

theorem readMembers_close (h : p.memberSlot first s = .ok (.close rest)) :
    p.readMembers key member first gathered s = .ok (gathered, rest) := by
  rw [readMembers_eq, h]

theorem readMembers_member (hSlot : p.memberSlot first s = .ok (.item start))
    (hKey : key.read start = .ok (k, behind))
    (hMember : (member gathered k).read behind = .ok (gathered', rest)) :
    p.readMembers key member first gathered s = p.readMembers key member false gathered' rest := by
  rw [readMembers_eq, hSlot]
  dsimp only
  rw [hKey]
  dsimp only
  rw [hMember]

theorem readMembers_key_fault (hSlot : p.memberSlot first s = .ok (.item start))
    (hKey : key.read start = .error fault) :
    p.readMembers key member first gathered s = .error (fault.within .someMember) := by
  rw [readMembers_eq, hSlot]
  dsimp only
  rw [hKey]

theorem readMembers_member_fault (hSlot : p.memberSlot first s = .ok (.item start))
    (hKey : key.read start = .ok (k, behind))
    (hMember : (member gathered k).read behind = .error fault) :
    p.readMembers key member first gathered s = .error fault := by
  rw [readMembers_eq, hSlot]
  dsimp only
  rw [hKey]
  dsimp only
  rw [hMember]

end Members

end Punctuation

end Conformance.Json
