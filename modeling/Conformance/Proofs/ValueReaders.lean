import Conformance.Proofs.WrittenValues

/-! What each kind of written value is read as: by the two manners of reading a value, by the
readers of a string and a truth value, and by the readers of records and sequences. -/

namespace Conformance.Json

variable {α β ρ τ : Type} {s : List Char} {tokens ts : List (List Char)}

/-! ### Values -/

theorem afterWord_self (word rest : List Char) : afterWord word (word ++ rest) = .ok rest := by
  induction word with
  | nil => rfl
  | cons c word ih =>
    rw [List.cons_append, afterWord, if_pos rfl]
    exact ih

namespace Manner

variable {m : Manner τ α} {step : τ → Step} {item? : Option (Reader α)} {item : Reader α}

theorem readWord_self (a : α) (letters rest : List Char) :
    readWord a letters (letters ++ rest) = .ok (a, rest) := by
  rw [readWord, afterWord_self]

/-- A value is read by its first character. -/
theorem readValue_laid {c : Char} {t : List Char} (hc : isBlank c = false)
    (h : Laid ((c :: t) :: tokens) s) :
    ∃ rest, (m.value step item?).read s = m.readFrom step item? c (t ++ rest) ∧
      Laid tokens rest := by
  obtain ⟨rest, hSkip, hRest⟩ := h.uncons hc
  refine ⟨rest, ?_, hRest⟩
  show m.readValue step item? s = _
  rw [readValue, hSkip]

theorem gives_null : (m.value step item?).Gives Written.null.tokens (some m.null) := by
  intro ts s _ hLaid
  obtain ⟨rest, hRead, hRest⟩ := readValue_laid (by decide) hLaid
  exact ⟨rest, hRead.trans (readWord_self m.null ['u', 'l', 'l'] rest), hRest⟩

theorem gives_bool (b : Bool) :
    (m.value step item?).Gives (Written.bool b).tokens (some (m.bool b)) := by
  intro ts s _ hLaid
  cases b with
  | true =>
    obtain ⟨rest, hRead, hRest⟩ := readValue_laid (by decide) hLaid
    exact ⟨rest, hRead.trans (readWord_self (m.bool true) ['r', 'u', 'e'] rest), hRest⟩
  | false =>
    obtain ⟨rest, hRead, hRest⟩ := readValue_laid (by decide) hLaid
    exact ⟨rest, hRead.trans (readWord_self (m.bool false) ['a', 'l', 's', 'e'] rest), hRest⟩

theorem gives_string {glyphs : List Glyph} {outcome : Option τ}
    (h : m.string.Spells glyphs outcome) :
    (m.value step item?).Gives (Written.string glyphs).tokens (outcome.map m.text) := by
  have hRead {ts s} (hLaid : Laid ((Written.string glyphs).tokens ++ ts) s) :
      ∃ rest, ((m.value step item?).read s).toOption = (outcome.map m.text).map (·, rest) ∧
        Laid ts rest := by
    obtain ⟨rest, hRead, hRest⟩ := readValue_laid (by decide) hLaid
    refine ⟨rest, ?_, hRest⟩
    rw [hRead, List.append_assoc]
    show (Reader.mapReading m.text (m.string.read _)).toOption = _
    rw [toOption_mapReading]
    have hSpells := h rest
    rw [List.singleton_append, hSpells]
    cases outcome <;> rfl
  cases outcome with
  | none =>
    intro ts s _ hLaid
    obtain ⟨rest, hEq, -⟩ := hRead hLaid
    exact toOption_eq_none_iff.mp hEq
  | some t =>
    intro ts s _ hLaid
    obtain ⟨rest, hEq, hRest⟩ := hRead hLaid
    exact ⟨rest, toOption_eq_some_iff.mp hEq, hRest⟩

theorem readValue_number {text : List Char} (h : IsNumber text)
    (hLaid : Laid ((Written.number text h).tokens ++ ts) s) :
    ∃ rest, (m.value step item?).read s = m.number.read (text ++ rest) ∧ Laid ts rest := by
  obtain ⟨c, t, rfl, hc⟩ := Written.head_of_isNumber h
  obtain ⟨rest, hRead, hRest⟩ := readValue_laid (Written.isBlank_of_number hc) hLaid
  refine ⟨rest, ?_, hRest⟩
  have hNull := Written.ne_of_number hc 'n' (by decide)
  have hTrue := Written.ne_of_number hc 't' (by decide)
  have hFalse := Written.ne_of_number hc 'f' (by decide)
  have hQuote := Written.ne_of_number hc '"' (by decide)
  have hList := Written.ne_of_number hc '[' (by decide)
  have hObject := Written.ne_of_number hc '\x7b' (by decide)
  have hBracket : ¬ (c = '[' || c = '\x7b') = true := by simp [hList, hObject]
  have hDigit : (c = '-' || c.isDigit) = true := by simpa using hc
  rw [hRead]
  unfold readFrom
  rw [if_neg hNull, if_neg hTrue, if_neg hFalse, if_neg hQuote, if_neg hBracket, if_pos hDigit]
  rfl

theorem gives_number {text : List Char} (h : IsNumber text) {a : α}
    (hNumber : ∀ rest, EndsNumber rest → m.number.read (text ++ rest) = .ok (a, rest)) :
    (m.value step item?).Gives (Written.number text h).tokens (some a) := by
  intro ts s hBehind hLaid
  obtain ⟨rest, hRead, hRest⟩ := readValue_number h hLaid
  exact ⟨rest, hRead.trans (hNumber rest (hRest.endsNumber hBehind)), hRest⟩

theorem gives_list {items : List Written} {as : List α} (h : GivesAll item items as) :
    (m.value step (some item)).Gives (Written.list items).tokens (some (m.list as)) := by
  intro ts s _ hLaid
  obtain ⟨start, hRead, hStart⟩ := readValue_laid (by decide) hLaid
  obtain ⟨rest, hElements, hRest⟩ := Punctuation.readElements_written h 0 hStart
  refine ⟨rest, ?_, hRest⟩
  rw [hRead]
  show m.readList item start = _
  rw [readList, hElements]

theorem gives_object {members : Members} {gathered : List (τ × α)}
    (h : Gathers m.string (member item step) [] members (some gathered)) :
    (m.value step (some item)).Gives (Written.object members).tokens
      (some (m.object gathered.reverse)) := by
  intro ts s _ hLaid
  obtain ⟨start, hRead, hStart⟩ := readValue_laid (by decide) hLaid
  obtain ⟨rest, hMembers, hRest⟩ := Punctuation.readMembers_written h rfl true hStart
  refine ⟨rest, ?_, hRest⟩
  rw [hRead]
  show m.readObject item step start = _
  rw [readObject, hMembers]

end Manner

/-! ### Values that are passed over -/

theorem gathers_skip {item : Reader Unit} {step : Unit → Step}
    {members : Members}
    (h : ∀ m ∈ members, item.Gives m.2.tokens (some ())) (gathered : List (Unit × Unit)) :
    ∃ result, Gathers Manner.skip.string (Manner.member item step) gathered members
      (some result) := by
  induction members generalizing gathered with
  | nil => exact ⟨gathered, .nil⟩
  | cons m members ih =>
    obtain ⟨hFirst, hRest⟩ := List.forall_mem_cons.mp h
    obtain ⟨result, hResult⟩ := ih hRest (((), ()) :: gathered)
    exact ⟨result, .member (skip_spells m.1) ((hFirst.afterColon _).map _) hResult⟩

theorem Written.depth_of_mem_elements {w : Written} {items : List Written} (h : w ∈ items) :
    w.depth ≤ elementDepth items := by
  induction items with
  | nil => cases h
  | cons v items ih =>
    rw [elementDepth]
    rcases List.mem_cons.mp h with rfl | hRest
    · exact Nat.le_max_left _ _
    · exact Nat.le_trans (ih hRest) (Nat.le_max_right _ _)

theorem Written.depth_of_mem_members {m : List Glyph × Written}
    {members : Members} (h : m ∈ members) :
    m.2.depth ≤ memberDepth members := by
  induction members with
  | nil => cases h
  | cons v members ih =>
    obtain ⟨key, w⟩ := v
    rw [memberDepth]
    rcases List.mem_cons.mp h with rfl | hRest
    · exact Nat.le_max_left _ _
    · exact Nat.le_trans (ih hRest) (Nat.le_max_right _ _)

theorem givesAll_of_forall {item : Reader α} {items : List Written} {a : α}
    (h : ∀ w ∈ items, item.Gives w.tokens (some a)) :
    GivesAll item items (items.map fun _ => a) := by
  rw [GivesAll, List.forall₂_map_right_iff, List.forall₂_same]
  exact h

theorem skip_gives_scalar {step : Unit → Step} {item? : Option (Reader Unit)} {w : Written}
    (h : w.depth = 0) : (Manner.skip.value step item?).Gives w.tokens (some ()) := by
  cases w with
  | null => exact Manner.gives_null
  | bool b => exact Manner.gives_bool b
  | number text hNumber =>
    exact Manner.gives_number hNumber fun rest hEnds => Numeral.skip_of_isNumber hNumber hEnds
  | string glyphs => exact Manner.gives_string (skip_spells glyphs)
  | list items => cases h
  | object members => cases h

/-- Anything that is written is passed over, if enough brackets may be open. -/
theorem skip_gives (step : Unit → Step) {w : Written} {depth : Nat} (h : w.depth ≤ depth) :
    (Manner.skip.valueWithin step depth).Gives w.tokens (some ()) := by
  induction depth generalizing w with
  | zero => exact skip_gives_scalar (Nat.le_zero.mp h)
  | succ depth ih =>
    cases w with
    | list items =>
      have hItems : ∀ w ∈ items, (Manner.skip.valueWithin step depth).Gives w.tokens (some ()) :=
        fun w hw =>
          ih (Nat.le_trans (Written.depth_of_mem_elements hw) (Nat.le_of_succ_le_succ h))
      exact Manner.gives_list (givesAll_of_forall hItems)
    | object members =>
      have hMembers : ∀ m ∈ members,
          (Manner.skip.valueWithin step depth).Gives m.2.tokens (some ()) := fun m hm =>
        ih (Nat.le_trans (Written.depth_of_mem_members hm) (Nat.le_of_succ_le_succ h))
      obtain ⟨gathered, hGathers⟩ := gathers_skip hMembers []
      exact Manner.gives_object hGathers
    | _ => exact skip_gives_scalar rfl

/-- A skipped value may be nested as deeply as it likes: the text has the brackets. -/
theorem skipper_gives (w : Written) : skipper.Gives w.tokens (some ()) := by
  intro ts s hBehind hLaid
  -- The budget is the count of brackets in all of the text, and those of the value stand there.
  have hDepth : w.depth ≤ openingCount s := by
    have hTokens := w.depth_le_openingCount
    have hText := openingCount_le_of_sublist hLaid.sublist
    rw [List.flatten_append, openingCount_append] at hText
    omega
  exact (skip_gives _ hDepth).mapFault (fun fault => { fault with path := [] }) hBehind hLaid

/-! ### Strings and truth values -/

namespace Written

/-- The text that a value writes, if it is a string. -/
def text? : Written → Option String
  | string glyphs => Glyph.string? glyphs
  | _ => none

/-- The truth value that is written. -/
def bool? : Written → Option Bool
  | bool b => some b
  | _ => none

end Written

namespace Reader

variable {expected : String} {accept : Document → Except Cause α} {w : Written}

theorem readTyped_laid (hDepth : w.depth = 0) (h : Laid (w.tokens ++ ts) s) :
    ∃ start, Laid (w.tokens ++ ts) start ∧ (typed expected accept).read s =
      match Document.scalarReader.read start with
      | .error fault => .error fault
      | .ok (d, rest) => match accept d with
        | .ok a => .ok (a, rest)
        | .error cause => .error (.here cause rest) := by
  obtain ⟨c, t, more, hTokens, hBlank, -, hBracket⟩ := w.tokens_eq_cons
  obtain ⟨hList, hObject⟩ := hBracket hDepth
  rw [hTokens, List.cons_append] at h ⊢
  obtain ⟨rest, hSkip, hRest⟩ := h.uncons hBlank
  refine ⟨_, hRest.token (c :: t), ?_⟩
  show readTyped expected accept s = _
  rw [readTyped, hSkip]
  dsimp only
  rw [if_neg hList, if_neg hObject]
  rfl

/-- Of a value without brackets the reader takes what it accepts. -/
theorem typed_gives {outcome : Option Document} (hDepth : w.depth = 0)
    (h : Document.scalarReader.Gives w.tokens outcome) :
    (typed expected accept).Gives w.tokens (outcome.bind fun d => (accept d).toOption) := by
  refine h.bind _ fun hLaid => ?_
  obtain ⟨start, hStart, hRead⟩ := readTyped_laid hDepth hLaid
  refine ⟨start, hStart, ?_⟩
  rw [hRead]
  cases Document.scalarReader.read start with
  | error fault => rfl
  | ok p =>
    show Except.toOption (match accept p.1 with | .ok a => _ | .error cause => _) =
      ((accept p.1).toOption).map (·, p.2)
    cases accept p.1 <;> rfl

theorem typed_refuses_open {c : Char} (hc : c = '[' ∨ c = '\x7b') :
    (typed expected accept).Gives ([c] :: tokens) none := by
  intro ts s _ hLaid
  have hBlank : isBlank c = false := by rcases hc with rfl | rfl <;> decide
  obtain ⟨rest, hSkip, -⟩ := hLaid.uncons hBlank
  show ∃ fault, readTyped expected accept s = .error fault
  rw [readTyped, hSkip]
  rcases hc with rfl | rfl <;> exact ⟨_, rfl⟩

/-- A reader that accepts no number refuses every one, be it too great for a float or not. -/
theorem typed_refuses_number (hInteger : ∀ i, (accept (.integer i)).toOption = none)
    (hFloat : ∀ x, (accept (.float x)).toOption = none) {text : List Char} (h : IsNumber text) :
    (typed expected accept).Gives (Written.number text h).tokens none := by
  intro ts s _ hLaid
  obtain ⟨start, hStart, hRead⟩ := readTyped_laid rfl hLaid
  obtain ⟨rest, hNumber, -⟩ := Manner.readValue_number h hStart
  rw [hRead]
  cases hScalar : Document.scalarReader.read start with
  | error fault => exact ⟨fault, rfl⟩
  | ok p =>
    have hNone : (accept p.1).toOption = none := by
      rcases Numeral.readNumber_cases (hNumber.symm.trans hScalar) with ⟨i, hi⟩ | ⟨x, hx⟩
      · rw [hi]
        exact hInteger i
      · rw [hx]
        exact hFloat x
    dsimp only
    cases hAccept : accept p.1 with
    | error cause => exact ⟨_, rfl⟩
    | ok a =>
      rw [hAccept] at hNone
      cases hNone

theorem string_gives (w : Written) : Reader.string.Gives w.tokens w.text? := by
  cases w with
  | null => exact typed_gives rfl Manner.gives_null
  | bool b => exact typed_gives rfl (Manner.gives_bool b)
  | number text h => exact typed_refuses_number (fun _ => rfl) (fun _ => rfl) h
  | string glyphs =>
    have hScalar : Document.scalarReader.Gives (Written.string glyphs).tokens
        ((Glyph.string? glyphs).map .string) := Manner.gives_string (keep_spells glyphs)
    rw [Written.text?]
    cases hText : Glyph.string? glyphs with
    | none =>
      rw [hText] at hScalar
      exact typed_gives rfl hScalar
    | some text =>
      rw [hText] at hScalar
      exact typed_gives rfl hScalar
  | list items => exact typed_refuses_open (.inl rfl)
  | object members => exact typed_refuses_open (.inr rfl)

theorem bool_gives (w : Written) : Reader.bool.Gives w.tokens w.bool? := by
  cases w with
  | null => exact typed_gives rfl Manner.gives_null
  | bool b => exact typed_gives rfl (Manner.gives_bool b)
  | number text h => exact typed_refuses_number (fun _ => rfl) (fun _ => rfl) h
  | string glyphs =>
    have hScalar : Document.scalarReader.Gives (Written.string glyphs).tokens
        ((Glyph.string? glyphs).map .string) := Manner.gives_string (keep_spells glyphs)
    cases hText : Glyph.string? glyphs with
    | none =>
      rw [hText] at hScalar
      exact typed_gives rfl hScalar
    | some text =>
      rw [hText] at hScalar
      exact typed_gives rfl hScalar
  | list items => exact typed_refuses_open (.inl rfl)
  | object members => exact typed_refuses_open (.inr rfl)

end Reader

/-! ### Records and sequences -/

namespace Shape

variable {shape : Shape ρ α} {gathered : ρ} {key : String} {w : Written}

theorem member_gives_field {field : Field ρ} {outcome : Option ρ}
    (hField : shape.fields.find? (·.name = key) = some field)
    (h : (field.value gathered).Gives w.tokens outcome) :
    (shape.member gathered key).Gives ([':'] :: w.tokens)
      (if field.isSet gathered then none else outcome) := by
  simp only [member, hField]
  split
  · exact fun _ _ _ _ => ⟨_, rfl⟩
  · exact h.afterColon (.key key)

theorem member_gives_other (hField : shape.fields.find? (·.name = key) = none)
    (hOthers : shape.others = .skipped) (w : Written) :
    (shape.member gathered key).Gives ([':'] :: w.tokens) (some gathered) := by
  simp only [member, hField, hOthers]
  exact ((skipper_gives w).map fun _ => gathered).afterColon (.key key)

theorem reader_gives {members : Members}
    {outcome : Option ρ}
    (h : Gathers Manner.keep.string shape.member shape.blank members outcome) :
    shape.reader.Gives (Written.object members).tokens
      (outcome.bind fun gathered => (shape.finish gathered).toOption) := by
  have hRead {ts s} (hLaid : Laid ((Written.object members).tokens ++ ts) s) :
      ∃ start, shape.reader.read s = shape.readObject start ∧
        Laid (Written.memberTokens true members ++ ts) start := by
    obtain ⟨start, hSkip, hStart⟩ := hLaid.uncons (by decide)
    refine ⟨start, ?_, hStart⟩
    show shape.readRecord s = _
    rw [readRecord, hSkip]
    rfl
  cases outcome with
  | none =>
    intro ts s _ hLaid
    obtain ⟨start, hEq, hStart⟩ := hRead hLaid
    obtain ⟨fault, hMembers⟩ := Punctuation.readMembers_refused h rfl true hStart
    refine ⟨fault, ?_⟩
    rw [hEq, readObject, hMembers]
  | some gathered =>
    rw [Option.bind_some]
    cases hFinish : shape.finish gathered with
    | error name =>
      intro ts s _ hLaid
      obtain ⟨start, hEq, hStart⟩ := hRead hLaid
      obtain ⟨rest, hMembers, -⟩ := Punctuation.readMembers_written h rfl true hStart
      refine ⟨.here (.missingField name) rest, ?_⟩
      rw [hEq, readObject, hMembers]
      dsimp only
      rw [hFinish]
    | ok record =>
      intro ts s _ hLaid
      obtain ⟨start, hEq, hStart⟩ := hRead hLaid
      obtain ⟨rest, hMembers, hRest⟩ := Punctuation.readMembers_written h rfl true hStart
      refine ⟨rest, ?_, hRest⟩
      rw [hEq, readObject, hMembers]
      dsimp only
      rw [hFinish]

end Shape

namespace Reader

variable {item : Reader α}

theorem readSequence_laid {items : List Written}
    (h : Laid ((Written.list items).tokens ++ ts) s) :
    ∃ start, item.sequence.read s = Punctuation.keep.readElements item 0 start ∧
      Laid (Written.elementTokens true items ++ ts) start := by
  obtain ⟨start, hSkip, hStart⟩ := h.uncons (by decide)
  refine ⟨start, ?_, hStart⟩
  show item.readSequence s = _
  rw [readSequence, hSkip]
  rfl

theorem sequence_gives {items : List Written} {as : List α} (h : GivesAll item items as) :
    item.sequence.Gives (Written.list items).tokens (some as) := by
  intro ts s _ hLaid
  obtain ⟨start, hEq, hStart⟩ := readSequence_laid hLaid
  rw [hEq]
  exact Punctuation.readElements_written h 0 hStart

/-- What is refused first is what the fault points at. -/
theorem sequence_refused {front : List Written} {w : Written} {as : List α}
    (h : GivesAll item front as) (hBad : item.Gives w.tokens none) (back : List Written)
    (hLaid : Laid ((Written.list (front ++ w :: back)).tokens ++ ts) s) :
    ∃ fault, item.sequence.read s = .error (Fault.within (.index front.length) fault) := by
  obtain ⟨start, hEq, hStart⟩ := readSequence_laid hLaid
  obtain ⟨fault, hFault⟩ := Punctuation.readElements_refused h hBad back 0 hStart
  refine ⟨fault, ?_⟩
  rw [hEq, hFault, Nat.zero_add]

end Reader

end Conformance.Json
