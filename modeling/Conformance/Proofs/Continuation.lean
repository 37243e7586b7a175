import Conformance.Load
import Conformance.Proofs.ReaderSteps

/-! Reading goes from the front of a text to the end of one value.  A number ends where something
follows that cannot belong to it, everything else at its last character; so a reader gives the same
result when the text goes on, provided it left something of the text before.  What ends in a bracket
may be the end of the text. -/

namespace Conformance

namespace Json

variable {α β κ ρ : Type} {s t rest : List Char}

/-- What one way of reading gives, and leaves something behind it, another gives when a text
follows. -/
def Continues (t : List Char) (read read' : List Char → Reading α) : Prop :=
  ∀ ⦃s a rest⦄, read s = .ok (a, rest) → rest ≠ [] → read' (s ++ t) = .ok (a, rest ++ t)

/-- What one way of reading gives, another gives when a text follows. -/
def Concludes (t : List Char) (read read' : List Char → Reading α) : Prop :=
  ∀ ⦃s a rest⦄, read s = .ok (a, rest) → read' (s ++ t) = .ok (a, rest ++ t)

theorem Concludes.continues {read read' : List Char → Reading α} (h : Concludes t read read') :
    Continues t read read' := fun _ _ _ hRead _ => h hRead

theorem ne_nil_of_length_lt (h : rest.length < s.length) : s ≠ [] := by
  rintro rfl
  exact absurd h (Nat.not_lt_zero _)

/-! ### Blanks and words -/

theorem skipBlanks_append {c : Char} (h : skipBlanks s = c :: rest) (t : List Char) :
    skipBlanks (s ++ t) = c :: (rest ++ t) := by
  unfold skipBlanks at h ⊢
  rw [List.dropWhile_append, h]
  rfl

theorem afterWord_append {word : List Char} (h : afterWord word s = .ok rest) (t : List Char) :
    afterWord word (s ++ t) = .ok (rest ++ t) := by
  induction word generalizing s with
  | nil =>
    cases h
    rfl
  | cons w word ih =>
    cases s with
    | nil => cases h
    | cons c s =>
      rw [List.cons_append, afterWord]
      rw [afterWord] at h
      split at h
      · next hc =>
        rw [if_pos hc]
        exact ih h
      · cases h

/-! ### Numbers -/

namespace Numeral

theorem digits_append (h : (digits s).2 ≠ []) (t : List Char) :
    digits (s ++ t) = ((digits s).1, (digits s).2 ++ t) := by
  have hLength : (s.takeWhile Char.isDigit).length ≠ s.length := by
    have hParts :=
      congrArg List.length (List.takeWhile_append_dropWhile (p := Char.isDigit) (l := s))
    have hPos := List.length_pos_iff.mpr h
    simp only [digits] at hPos
    rw [List.length_append] at hParts
    omega
  have hDrop : (s.dropWhile Char.isDigit).isEmpty = false := by simpa [digits] using h
  simp only [digits, List.takeWhile_append, List.dropWhile_append, if_neg hLength, hDrop]
  rfl

theorem continues_scanWhole (atEnd : Cause) : Continues t (scanWhole atEnd) (scanWhole atEnd) := by
  intro s ds rest h hne
  cases s with
  | nil => cases h
  | cons c s =>
    rw [List.cons_append, scanWhole]
    rw [scanWhole] at h
    split at h
    · next hc =>
      rw [if_pos hc]
      split at h
      · cases h
      · next hHead =>
        cases h
        obtain ⟨d, s, rfl⟩ := List.exists_cons_of_ne_nil hne
        rw [List.cons_append, if_neg (by simpa using hHead)]
    · next hc =>
      rw [if_neg hc]
      split at h
      · next hDigit =>
        cases h
        rw [if_pos hDigit, digits_append hne]
      · cases h

theorem continues_scanFraction (atEnd : Cause) :
    Continues t (scanFraction atEnd) (scanFraction atEnd) := by
  intro s ds rest h hne
  cases s with
  | nil =>
    cases h
    exact absurd rfl hne
  | cons c s =>
    rw [List.cons_append]
    by_cases hc : c = '.'
    · subst hc
      obtain ⟨hDigits, hFull⟩ := scanFraction_eq_ok h
      refine scanFraction_of_digits ?_ hFull
      rw [digits_append (by rwa [hDigits]), hDigits]
    · rw [scanFraction_of_ne hc] at h ⊢
      cases h
      rfl

theorem continues_scanExponentDigits (atEnd : Cause) :
    Continues t (scanExponentDigits atEnd) (scanExponentDigits atEnd) := by
  intro s ds rest h hne
  cases s with
  | nil => cases h
  | cons c s =>
    rw [List.cons_append, scanExponentDigits]
    rw [scanExponentDigits] at h
    split at h
    · next hDigit =>
      cases h
      rw [if_pos hDigit, digits_append hne]
    · cases h

/-- Behind the mark of an exponent a sign may stand in front of the digits. -/
theorem exists_scanSigned (atEnd : Cause) {s : List Char} (hs : s ≠ []) :
    ∃ negative body, ∀ t, scanSigned atEnd (s ++ t) =
      Reader.mapReading (negative, ·) (scanExponentDigits atEnd (body ++ t)) := by
  obtain ⟨c, s, rfl⟩ := List.exists_cons_of_ne_nil hs
  by_cases hPlus : c = '+'
  · subst hPlus
    exact ⟨false, s, fun t => scanSigned_plus atEnd (s ++ t)⟩
  · by_cases hMinus : c = '-'
    · subst hMinus
      exact ⟨true, s, fun t => scanSigned_minus atEnd (s ++ t)⟩
    · exact ⟨false, c :: s, fun t => scanSigned_of_ne hPlus hMinus atEnd (s ++ t)⟩

theorem continues_scanSigned (atEnd : Cause) :
    Continues t (scanSigned atEnd) (scanSigned atEnd) := by
  intro s e rest h hne
  have hs : s ≠ [] := by
    have := length_of_scanSigned h
    have := List.length_pos_iff.mpr hne
    exact List.length_pos_iff.mp (by omega)
  obtain ⟨negative, body, hSigned⟩ := exists_scanSigned atEnd hs
  have hBody := hSigned []
  rw [List.append_nil, List.append_nil] at hBody
  rw [hBody] at h
  obtain ⟨ds, hDigits, rfl⟩ := Reader.mapReading_eq_ok h
  rw [hSigned t, continues_scanExponentDigits atEnd hDigits hne]
  rfl

theorem continues_scanExponent (atEnd : Cause) :
    Continues t (scanExponent atEnd) (scanExponent atEnd) := by
  intro s e rest h hne
  unfold scanExponent at h
  split at h
  · exact continues_scanSigned atEnd h hne
  · exact continues_scanSigned atEnd h hne
  · next hSmall hCapital =>
    cases h
    obtain ⟨c, s, rfl⟩ := List.exists_cons_of_ne_nil hne
    rw [List.cons_append]
    unfold scanExponent
    split
    · next hEq =>
      cases hEq
      exact absurd rfl (hSmall s)
    · next hEq =>
      cases hEq
      exact absurd rfl (hCapital s)
    · rfl

theorem minus_append (hs : s ≠ []) (t : List Char) :
    minus (s ++ t) = ((minus s).1, (minus s).2 ++ t) := by
  obtain ⟨c, s, rfl⟩ := List.exists_cons_of_ne_nil hs
  rw [List.cons_append]
  by_cases hc : c = '-'
  · subst hc
    rfl
  · rw [minus_of_ne hc, minus_of_ne hc]
    rfl

theorem continues_scan (atEnd : Cause) : Continues t (scan atEnd) (scan atEnd) := by
  intro s n rest h hne
  have hs := ne_nil_of_length_lt (length_of_scan h)
  obtain ⟨s₁, s₂, hMinus, hWhole, hFraction, hExponent⟩ := scan_eq_ok_iff.mp h
  have hPos := List.length_pos_iff.mpr hne
  have h₂ : s₂ ≠ [] := by
    have := length_of_scanExponent hExponent
    exact List.length_pos_iff.mp (by omega)
  have h₁ : s₁ ≠ [] := by
    have := length_of_scanFraction hFraction
    have := List.length_pos_iff.mpr h₂
    exact List.length_pos_iff.mp (by omega)
  have hSplit := minus_append hs t
  refine scan_eq_ok_iff.mpr ⟨s₁ ++ t, s₂ ++ t, ?_, ?_, ?_, ?_⟩
  · rw [hSplit, hMinus]
  · rw [hSplit]
    exact continues_scanWhole atEnd hWhole h₁
  · exact continues_scanFraction atEnd hFraction h₂
  · exact continues_scanExponent atEnd hExponent hne

/-- What follows a number matters only where the number is too great. -/
theorem toFloat_eq_ok {n : Numeral} {x : Binary64} (h : n.toFloat rest = .ok x)
    (rest' : List Char) : n.toFloat rest' = .ok x := by
  unfold toFloat at h ⊢
  generalize n.parts = parts at h ⊢
  dsimp only at h ⊢
  split at h
  · split at h
    · cases h
    · next hSmall =>
      rw [if_neg hSmall]
      exact h
  · generalize Binary64.ofParts _ _ = y at h ⊢
    split at h
    · cases h
    · next hFinite =>
      rw [if_neg hFinite]
      exact h

theorem toDocument_eq_ok {n : Numeral} {d : Document} (h : n.toDocument rest = .ok d)
    (rest' : List Char) : n.toDocument rest' = .ok d := by
  unfold toDocument at h ⊢
  split at h
  · exact h
  · cases hFloat : n.toFloat rest with
    | error fault =>
      rw [hFloat] at h
      cases h
    | ok x =>
      rw [hFloat] at h
      rw [toFloat_eq_ok hFloat]
      exact h

theorem continues_readNumber : Continues t readNumber readNumber := by
  intro s d rest h hne
  obtain ⟨n, hScan, hDocument⟩ := readNumber_eq_ok_iff.mp h
  exact readNumber_eq_ok_iff.mpr
    ⟨n, continues_scan .endInValue hScan hne, toDocument_eq_ok hDocument (rest ++ t)⟩

theorem continues_skipNumber : Continues t skipNumber skipNumber := by
  intro s u rest h hne
  unfold skipNumber at h ⊢
  split at h
  · cases h
  · next hScan =>
    cases h
    rw [continues_scan .badNumber hScan hne]

end Numeral

/-! ### Strings -/

theorem concludes_readUnit : Concludes t readUnit readUnit := by
  intro s n rest h
  obtain ⟨a, b, c, d, rfl, hNumber⟩ := readUnit_eq_ok_iff.mp h
  exact readUnit_eq_ok_iff.mpr ⟨a, b, c, d, rfl, hNumber⟩

theorem concludes_readUnits : Concludes t readUnits readUnits := by
  intro s c rest h
  unfold readUnits at h ⊢
  split at h
  · cases h
  · next n after hUnit =>
    rw [concludes_readUnit hUnit]
    dsimp only
    split at h
    · cases h
    · next hSecond =>
      rw [if_neg hSecond]
      split at h
      · next hFirst =>
        obtain ⟨body, m, rfl, hNext, hPair⟩ := readSecond_eq_ok_iff.mp h
        rw [if_pos hFirst]
        exact readSecond_eq_ok_iff.mpr ⟨body ++ t, m, rfl, concludes_readUnit hNext, hPair⟩
      · next hFirst =>
        cases h
        rw [if_neg hFirst]

namespace StringRule

variable {rule : StringRule α}

theorem readEscape_append (hUnits : Concludes t rule.units.read rule.units.read) {a : α}
    (h : readEscape rule.plain rule.units.read s = .ok (a, rest)) :
    readEscape rule.plain rule.units.read (s ++ t) = .ok (a, rest ++ t) := by
  unfold readEscape at h
  split at h
  · cases h
  · next c s =>
    rw [List.cons_append, readEscape]
    split at h
    · cases h
      rfl
    · split at h
      · next hc =>
        rw [if_pos hc]
        exact hUnits h
      · cases h

theorem concludes_readString (hUnits : Concludes t rule.units.read rule.units.read) :
    Concludes t rule.readString rule.readString := by
  intro s as rest h
  fun_induction readString rule s generalizing as rest with
  | case1 => cases h
  | case2 tail =>
    cases h
    rw [List.cons_append, readString_quote]
  | case3 => cases h
  | case4 => cases h
  | case5 tail a after he as' after' hs _ ih =>
    cases h
    rw [List.cons_append, readString_escape (readEscape_append hUnits he), ih hs]
    rfl
  | case6 => cases h
  | case7 => cases h
  | case8 c tail hQuote hSlash hControl as' after' hs ih =>
    cases h
    rw [List.cons_append, readString_plain hQuote hSlash hControl, ih hs]
    rfl

end StringRule

theorem concludes_map {read : List Char → Reading α} (h : Concludes t read read) (f : α → β) :
    Concludes t (fun s => Reader.mapReading f (read s)) fun s => Reader.mapReading f (read s) := by
  intro s b rest hRead
  obtain ⟨a, ha, rfl⟩ := Reader.mapReading_eq_ok hRead
  dsimp only
  rw [h ha]
  rfl

theorem concludes_keep : Concludes t Manner.keep.string.read Manner.keep.string.read :=
  concludes_map (StringRule.concludes_readString concludes_readUnits) String.ofList

theorem concludes_skip : Concludes t Manner.skip.string.read Manner.skip.string.read := by
  refine concludes_map (StringRule.concludes_readString ?_) fun _ => ()
  exact concludes_map concludes_readUnit fun _ => ()

/-! ### Lists and objects -/

/-- A slot with a text behind it. -/
def Slot.followed (t : List Char) : Slot → Slot
  | close rest => close (rest ++ t)
  | item rest => item (rest ++ t)

namespace Punctuation

variable {p : Punctuation} {first : Bool} {slot : Slot}

theorem elementSlot_append (h : p.elementSlot first s = .ok slot) (t : List Char) :
    p.elementSlot first (s ++ t) = .ok (slot.followed t) := by
  unfold elementSlot at h ⊢
  split at h
  · cases h
  · next c rest hs =>
    rw [skipBlanks_append hs]
    dsimp only
    split at h
    · next hClose =>
      cases h
      rw [if_pos hClose]
      rfl
    · next hClose =>
      rw [if_neg hClose]
      split at h
      · next hFirst =>
        cases h
        rw [if_pos hFirst]
        rfl
      · next hFirst =>
        rw [if_neg hFirst]
        split at h
        · next hComma =>
          rw [if_pos hComma]
          split at h
          · cases h
          · next hr =>
            rw [skipBlanks_append hr]
            dsimp only
            split at h
            · cases h
            · next hBracket =>
              cases h
              rw [if_neg hBracket]
              rfl
        · cases h

theorem memberSlot_append (h : p.memberSlot first s = .ok slot) (t : List Char) :
    p.memberSlot first (s ++ t) = .ok (slot.followed t) := by
  unfold memberSlot at h ⊢
  split at h
  · cases h
  · next c rest hs =>
    rw [skipBlanks_append hs]
    dsimp only
    split at h
    · next hClose =>
      cases h
      rw [if_pos hClose]
      rfl
    · next hClose =>
      rw [if_neg hClose]
      split at h
      · next hFirst =>
        rw [if_pos hFirst]
        split at h
        · next hQuote =>
          cases h
          rw [if_pos hQuote]
          rfl
        · cases h
      · next hFirst =>
        rw [if_neg hFirst]
        split at h
        · next hComma =>
          rw [if_pos hComma]
          split at h
          · cases h
          · next hr =>
            rw [skipBlanks_append hr]
            dsimp only
            split at h
            · next hQuote =>
              cases h
              rw [if_pos hQuote]
              rfl
            · split at h <;> cases h
        · cases h

/-- A list goes through its closing bracket, whatever its elements are read by. -/
theorem concludes_readElements {item item' : Reader α} (hItem : Continues t item.read item'.read)
    (index : Nat) : Concludes t (p.readElements item index) (p.readElements item' index) := by
  intro s as rest h
  fun_induction readElements p item index s generalizing as rest with
  | case1 => cases h
  | case2 _ _ _ hSlot =>
    cases h
    exact readElements_close (elementSlot_append hSlot t)
  | case3 => cases h
  | case4 => cases h
  | case5 index s start hSlot a after hRead as' rest' hRest ih =>
    cases h
    have hLeft := ne_nil_of_length_lt (length_of_readElements hRest)
    rw [readElements_item (elementSlot_append hSlot t) (hItem hRead hLeft), ih hRest]
    rfl

theorem concludes_readMembers {key : Reader κ} {member member' : ρ → κ → Reader ρ}
    (hKey : Concludes t key.read key.read)
    (hMember : ∀ gathered k, Continues t (member gathered k).read (member' gathered k).read)
    (first : Bool) (gathered : ρ) :
    Concludes t (p.readMembers key member first gathered)
      (p.readMembers key member' first gathered) := by
  intro s result rest h
  fun_induction readMembers p key member first gathered s with
  | case1 => cases h
  | case2 _ _ _ _ hSlot =>
    cases h
    exact readMembers_close (memberSlot_append hSlot t)
  | case3 => cases h
  | case4 => cases h
  | case5 first gathered s start hSlot k behind hRead gathered' after hMemberRead ih =>
    have hLeft := ne_nil_of_length_lt (length_of_readMembers h)
    rw [readMembers_member (memberSlot_append hSlot t) (hKey hRead)
      (hMember gathered k hMemberRead hLeft)]
    exact ih h

end Punctuation

namespace Reader

theorem continues_map {r r' : Reader α} (h : Continues t r.read r'.read) (f : α → β) :
    Continues t (r.map f).read (r'.map f).read := by
  intro s b rest hRead hne
  obtain ⟨a, ha, rfl⟩ := mapReading_eq_ok hRead
  show mapReading f (r'.read (s ++ t)) = _
  rw [h ha hne]
  rfl

theorem continues_mapFault {r r' : Reader α} (h : Continues t r.read r'.read)
    (f f' : Fault → Fault) : Continues t (r.mapFault f).read (r'.mapFault f').read := by
  intro s a rest hRead hne
  show (r'.read (s ++ t)).mapError f' = _
  rw [h (mapError_eq_ok hRead) hne]
  rfl

theorem continues_afterColon {r r' : Reader α} (h : Continues t r.read r'.read) (step : Step) :
    Continues t (r.afterColon step).read (r'.afterColon step).read := by
  intro s a rest hRead hne
  simp only [afterColon, readAfterColon] at hRead ⊢
  split at hRead
  · cases hRead
  · next hs =>
    rw [skipBlanks_append hs]
    dsimp only
    split at hRead
    · next hColon =>
      rw [if_pos hColon]
      exact continues_mapFault h _ _ hRead hne
    · cases hRead

end Reader

/-! ### Values -/

namespace Manner

variable {τ : Type} {m : Manner τ α} {step : τ → Step}

theorem concludes_readWord (a : α) (letters : List Char) :
    Concludes t (readWord a letters) (readWord a letters) := by
  intro s b rest h
  unfold readWord at h ⊢
  split at h
  · next hWord =>
    cases h
    rw [afterWord_append hWord]
  · cases h

/-- A value goes on as before when something was left behind it, or when it is not a number. -/
theorem readFrom_append (hString : Concludes t m.string.read m.string.read)
    (hNumber : Continues t m.number.read m.number.read) {item? item?' : Option (Reader α)}
    (hItem : ∀ item ∈ item?, ∃ item' ∈ item?', Continues t item.read item'.read)
    {c : Char} {a : α} (h : m.readFrom step item? c s = .ok (a, rest))
    (hLeft : rest ≠ [] ∨ ∀ s, m.number.read s ≠ .ok (a, rest)) :
    m.readFrom step item?' c (s ++ t) = .ok (a, rest ++ t) := by
  unfold readFrom at h ⊢
  split at h
  · next hNull =>
    rw [if_pos hNull]
    exact concludes_readWord _ _ h
  next hNull =>
  rw [if_neg hNull]
  split at h
  · next hTrue =>
    rw [if_pos hTrue]
    exact concludes_readWord _ _ h
  next hTrue =>
  rw [if_neg hTrue]
  split at h
  · next hFalse =>
    rw [if_pos hFalse]
    exact concludes_readWord _ _ h
  next hFalse =>
  rw [if_neg hFalse]
  split at h
  · next hQuote =>
    rw [if_pos hQuote]
    exact concludes_map hString m.text h
  next hQuote =>
  rw [if_neg hQuote]
  split at h
  · next hBracket =>
    rw [if_pos hBracket]
    cases item? with
    | none => cases h
    | some item =>
      obtain ⟨item', rfl, hContinues⟩ := hItem item rfl
      dsimp only at h ⊢
      split at h
      · next hList =>
        rw [if_pos hList]
        unfold readList at h ⊢
        split at h
        · next hElements =>
          cases h
          rw [Punctuation.concludes_readElements hContinues 0 hElements]
        · cases h
      · next hList =>
        rw [if_neg hList]
        unfold readObject at h ⊢
        split at h
        · next hMembers =>
          cases h
          rw [Punctuation.concludes_readMembers hString (fun gathered key => ?_) true [] hMembers]
          exact Reader.continues_map (Reader.continues_afterColon hContinues _) _
        · cases h
  next hBracket =>
  rw [if_neg hBracket]
  split at h
  · next hDigit =>
    rw [if_pos hDigit]
    rcases hLeft with hne | hOther
    · exact hNumber h hne
    · exact absurd h (hOther _)
  · cases h

theorem readValue_append (hString : Concludes t m.string.read m.string.read)
    (hNumber : Continues t m.number.read m.number.read) {item? item?' : Option (Reader α)}
    (hItem : ∀ item ∈ item?, ∃ item' ∈ item?', Continues t item.read item'.read)
    {a : α} (h : m.readValue step item? s = .ok (a, rest))
    (hLeft : rest ≠ [] ∨ ∀ s, m.number.read s ≠ .ok (a, rest)) :
    m.readValue step item?' (s ++ t) = .ok (a, rest ++ t) := by
  unfold readValue at h ⊢
  split at h
  · cases h
  · next hs =>
    rw [skipBlanks_append hs]
    exact readFrom_append hString hNumber hItem h hLeft

/-- A text that follows may have more brackets, so more of them may be allowed then. -/
theorem continues_valueWithin (hString : Concludes t m.string.read m.string.read)
    (hNumber : Continues t m.number.read m.number.read) {depth depth' : Nat}
    (hDepth : depth ≤ depth') :
    Continues t (m.valueWithin step depth).read (m.valueWithin step depth').read := by
  induction depth generalizing depth' with
  | zero =>
    intro s a rest h hne
    cases depth' with
    | zero => exact readValue_append hString hNumber (fun _ hNone => by cases hNone) h (.inl hne)
    | succ depth' =>
      exact readValue_append hString hNumber (fun _ hNone => by cases hNone) h (.inl hne)
  | succ depth ih =>
    intro s a rest h hne
    obtain ⟨deeper, rfl⟩ := Nat.exists_eq_add_of_le' (Nat.le_trans (Nat.le_add_left 1 depth) hDepth)
    refine readValue_append hString hNumber (fun item hSome => ?_) h (.inl hne)
    cases hSome
    exact ⟨_, rfl, ih (Nat.le_of_succ_le_succ hDepth)⟩

end Manner

theorem continues_scalar : Continues t Document.scalarReader.read Document.scalarReader.read :=
  fun _ _ _ h hne => Manner.readValue_append concludes_keep Numeral.continues_readNumber
    (fun _ hNone => by cases hNone) h (.inl hne)

/-- An object ends in its own bracket. -/
theorem document_object_append {members : List (String × Document)}
    (h : Document.reader.read s = .ok (.object members, rest)) (t : List Char) :
    Document.reader.read (s ++ t) = .ok (.object members, rest ++ t) := by
  refine Manner.readValue_append concludes_keep Numeral.continues_readNumber
    (fun item hSome => ?_) h (.inr fun s hNumber => ?_)
  · cases hSome
    exact ⟨_, rfl, Manner.continues_valueWithin concludes_keep Numeral.continues_readNumber
      (Nat.le_refl _)⟩
  · rcases Numeral.readNumber_cases hNumber with ⟨i, hi⟩ | ⟨x, hx⟩
    · cases hi
    · cases hx

theorem continues_skipper : Continues t skipper.read skipper.read := by
  intro s u rest h hne
  have hCount : openingCount s ≤ openingCount (s ++ t) := by
    rw [openingCount, openingCount, List.countP_append]
    exact Nat.le_add_right _ _
  exact Reader.continues_mapFault (Manner.continues_valueWithin concludes_skip
    Numeral.continues_skipNumber hCount) _ _ h hne

/-! ### Records -/

namespace Reader

theorem continues_typed {expected : String} {accept : Document → Except Cause α} :
    Continues t (typed expected accept).read (typed expected accept).read := by
  intro s a rest h hne
  simp only [typed, readTyped] at h ⊢
  split at h
  · cases h
  · next hs =>
    rw [skipBlanks_append hs]
    dsimp only
    split at h
    · cases h
    next hList =>
    rw [if_neg hList]
    split at h
    · cases h
    next hObject =>
    rw [if_neg hObject]
    split at h
    · cases h
    · next d after hScalar =>
      split at h
      · next hAccept =>
        cases h
        have hContinued := continues_scalar (t := t) hScalar hne
        rw [List.cons_append] at hContinued
        rw [hContinued]
        dsimp only
        rw [hAccept]
      · cases h

theorem mistyped_ne_ok {expected : String} {p : α × List Char} :
    (mistyped expected).read s ≠ .ok p := by
  intro h
  simp only [mistyped, typed, readTyped] at h
  split at h
  · cases h
  · split at h
    · cases h
    · split at h
      · cases h
      · split at h <;> cases h

theorem concludes_sequence {r : Reader α} (h : Continues t r.read r.read) :
    Concludes t r.sequence.read r.sequence.read := by
  intro s as rest hRead
  simp only [sequence, readSequence] at hRead ⊢
  split at hRead
  · cases hRead
  · next hs =>
    rw [skipBlanks_append hs]
    dsimp only
    split at hRead
    · next hList =>
      rw [if_pos hList]
      exact Punctuation.concludes_readElements h 0 hRead
    · exact absurd hRead mistyped_ne_ok

end Reader

namespace Shape

variable {shape : Shape ρ α}

/-- The fields are read the same when a text follows. -/
def FieldsContinue (t : List Char) (shape : Shape ρ α) : Prop :=
  ∀ field ∈ shape.fields, ∀ gathered,
    Continues t (field.value gathered).read (field.value gathered).read

theorem continues_member (hFields : shape.FieldsContinue t) (gathered : ρ) (key : String) :
    Continues t (shape.member gathered key).read (shape.member gathered key).read := by
  unfold member
  split
  · next field hFound =>
    split
    · intro s a rest h
      cases h
    · exact Reader.continues_afterColon
        (hFields field (List.mem_of_find?_eq_some hFound) gathered) _
  · split
    · exact Reader.continues_afterColon (Reader.continues_map continues_skipper _) _
    · intro s a rest h
      cases h

theorem concludes_readObject (hFields : shape.FieldsContinue t) :
    Concludes t shape.readObject shape.readObject := by
  intro s a rest h
  unfold readObject at h ⊢
  split at h
  · cases h
  · next hMembers =>
    rw [Punctuation.concludes_readMembers concludes_keep (continues_member hFields) true shape.blank
      hMembers]
    dsimp only
    split at h
    · cases h
      rfl
    · cases h

theorem closeList_append (h : closeList s = .ok rest) (t : List Char) :
    closeList (s ++ t) = .ok (rest ++ t) := by
  unfold closeList at h ⊢
  split at h
  · cases h
  · next hs =>
    rw [skipBlanks_append hs]
    dsimp only
    split at h
    · next hClose =>
      cases h
      rw [if_pos hClose]
    · split at h
      · split at h <;> cases h
      · cases h

theorem concludes_readList {fields : List (Field ρ)}
    (hFields : ∀ field ∈ fields, ∀ gathered,
      Continues t (field.value gathered).read (field.value gathered).read)
    (index : Nat) (gathered : ρ) :
    Concludes t (shape.readList index gathered fields) (shape.readList index gathered fields) := by
  intro s a rest h
  induction fields generalizing index gathered s with
  | nil =>
    rw [readList] at h ⊢
    split at h
    · cases h
    · next hClose =>
      rw [closeList_append hClose]
      dsimp only
      split at h
      · cases h
        rfl
      · cases h
  | cons field fields ih =>
    rw [readList] at h ⊢
    split at h
    · cases h
    · next hSlot =>
      rw [Punctuation.elementSlot_append hSlot]
      dsimp only [Slot.followed]
      split at h
      · cases h
        rfl
      · cases h
    · next hSlot =>
      rw [Punctuation.elementSlot_append hSlot]
      dsimp only [Slot.followed]
      split at h
      · cases h
      · next hValue =>
        have hLeft := ne_nil_of_length_lt (length_of_readList h)
        rw [hFields field List.mem_cons_self gathered hValue hLeft]
        exact ih (fun f hf => hFields f (List.mem_cons_of_mem field hf)) _ _ h

/-- A record goes through its closing bracket. -/
theorem concludes_reader (hFields : shape.FieldsContinue t) :
    Concludes t shape.reader.read shape.reader.read := by
  intro s a rest h
  simp only [reader, readRecord] at h ⊢
  split at h
  · cases h
  · next hs =>
    rw [skipBlanks_append hs]
    dsimp only
    split at h
    · next hObject =>
      rw [if_pos hObject]
      exact concludes_readObject hFields h
    · next hObject =>
      rw [if_neg hObject]
      split at h
      · next hList =>
        rw [if_pos hList]
        exact concludes_readList hFields 0 shape.blank h
      · exact absurd h Reader.mistyped_ne_ok

end Shape

end Json

/-! ### Loading -/

/-- Only the first document of a text counts: what is loaded is loaded whatever follows, so that of
two texts the longer cannot give anything else. -/
structure LoadsFirst {α : Type} (load : String → Except LoadError α) : Prop where
  append : ∀ {text : String} {a : α}, load text = .ok a → ∀ more, load (text ++ more) = .ok a
  agree : ∀ {text longer : String} {a b : α}, load text = .ok a → load longer = .ok b →
    text.toList <+: longer.toList → a = b

variable {α : Type}

theorem loadsFirst_of_append {load : String → Except LoadError α}
    (h : ∀ {text : String} {a : α}, load text = .ok a → ∀ more, load (text ++ more) = .ok a) :
    LoadsFirst load where
  append := h
  agree := by
    rintro text longer a b hShort hLong ⟨more, hMore⟩
    have hText : text ++ String.ofList more = longer := by
      rw [← String.toList_inj, String.toList_append, String.toList_ofList, hMore]
    have hAppend := h hShort (String.ofList more)
    rw [hText, hLong] at hAppend
    exact (Except.ok.inj hAppend).symm

namespace Json

theorem Reader.load_eq_ok_iff {r : Reader α} {text : String} {a : α} :
    r.load text = .ok a ↔ ∃ rest, r.read text.toList = .ok (a, rest) := by
  unfold load
  constructor
  · intro h
    split at h
    · next hRead =>
      cases h
      exact ⟨_, hRead⟩
    · cases h
  · rintro ⟨rest, hRead⟩
    rw [hRead]

theorem Reader.loadsFirst {r : Reader α} (h : ∀ t, Concludes t r.read r.read) :
    LoadsFirst r.load := by
  refine loadsFirst_of_append fun {text a} hLoad more => ?_
  obtain ⟨rest, hRead⟩ := Reader.load_eq_ok_iff.mp hLoad
  refine Reader.load_eq_ok_iff.mpr ⟨rest ++ more.toList, ?_⟩
  rw [String.toList_append]
  exact h more.toList hRead

end Json

open Json

theorem Parameter.fieldsContinue (t : List Char) : Parameter.shape.FieldsContinue t := by
  intro field hField gathered
  simp only [shape, List.mem_cons, List.not_mem_nil, or_false] at hField
  rcases hField with rfl | rfl | rfl <;> exact Reader.continues_map Reader.continues_typed _

theorem Policy.fieldsContinue (t : List Char) : Policy.shape.FieldsContinue t := by
  intro field hField gathered
  simp only [shape, List.mem_cons, List.not_mem_nil, or_false] at hField
  rcases hField with rfl | rfl <;> exact Reader.continues_map Reader.continues_typed _

theorem Arguments.load_eq_ok_iff {text : String} {arguments : Arguments} :
    Arguments.load text = .ok arguments ↔ ∃ members rest,
      Document.reader.read text.toList = .ok (.object members, rest) ∧
        Document.toMembers members = arguments := by
  unfold Arguments.load
  constructor
  · intro h
    split at h
    · cases h
    · next members hLoad =>
      cases h
      obtain ⟨rest, hRead⟩ := Reader.load_eq_ok_iff.mp hLoad
      exact ⟨members, rest, hRead, rfl⟩
    · cases h
  · rintro ⟨members, rest, hRead, rfl⟩
    rw [Reader.load_eq_ok_iff.mpr ⟨rest, hRead⟩]

theorem Parameter.loadsFirst : LoadsFirst Parameter.load :=
  Reader.loadsFirst fun t =>
    Reader.concludes_sequence (Shape.concludes_reader (Parameter.fieldsContinue t)).continues

theorem Arguments.loadsFirst : LoadsFirst Arguments.load := by
  refine loadsFirst_of_append fun {text arguments} hLoad more => ?_
  obtain ⟨members, rest, hRead, hMembers⟩ := Arguments.load_eq_ok_iff.mp hLoad
  refine Arguments.load_eq_ok_iff.mpr ⟨members, rest ++ more.toList, ?_, hMembers⟩
  rw [String.toList_append]
  exact document_object_append hRead more.toList

theorem Policy.loadsFirst : LoadsFirst Policy.load :=
  Reader.loadsFirst fun t => Shape.concludes_reader (Policy.fieldsContinue t)

/-- Parameters, arguments and policies are loaded from the first document of a text alone. -/
theorem loads_first :
    LoadsFirst Parameter.load ∧ LoadsFirst Arguments.load ∧ LoadsFirst Policy.load :=
  ⟨Parameter.loadsFirst, Arguments.loadsFirst, Policy.loadsFirst⟩

theorem loads_first_followed :
    Parameter.load ("[\x7b\"type\":\"int\",\"x\":[0],\"name\":\"a\"\x7d]" ++ ",1]") =
        .ok [⟨"a", "int", false⟩] ∧
      Policy.load ("\x7b\"max_nesting_depth\":12 \x7d" ++ "3\x7d") = .ok { maxDepth := 12 } :=
  ⟨loads_first.1.append (toOption_eq_some_iff.mp (by decide +kernel)) ",1]",
    loads_first.2.2.append (toOption_eq_some_iff.mp (by decide +kernel)) "3\x7d"⟩

end Conformance
