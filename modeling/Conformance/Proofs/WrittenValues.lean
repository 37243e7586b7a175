import Conformance.Json.Record
import Mathlib.Data.List.Forall2
import Conformance.Proofs.Spelling

/-! What the readers make of written values, in any layout.  A reader gives something for the tokens
of a value when it gives it wherever these tokens are laid out, and leaves what is laid out behind
them.  Only a comma or a bracket stands behind a value; that is what lets a number end there. -/

namespace Conformance.Json

variable {α β κ ρ τ : Type} {s : List Char} {tokens ts : List (List Char)}

/-! ### Layout -/

/-- What may stand behind a value: nothing, or first of all a comma or a closing bracket. -/
def Behind (tokens : List (List Char)) : Prop :=
  ∀ t ∈ tokens.head?, t ∈ [[','], [']'], ['\x7d']]

theorem behind_nil : Behind [] := nofun

theorem behind_elementTokens (items : List Written) (ts : List (List Char)) :
    Behind (Written.elementTokens false items ++ ts) := by
  intro t ht
  cases items <;> cases ht <;> decide

theorem behind_memberTokens (members : Members) (ts : List (List Char)) :
    Behind (Written.memberTokens false members ++ ts) := by
  intro t ht
  cases members <;> cases ht <;> decide

/-- The first token stands behind blanks. -/
theorem Laid.uncons {c : Char} {t : List Char} (hc : isBlank c = false)
    (h : Laid ((c :: t) :: tokens) s) :
    ∃ rest, skipBlanks s = c :: (t ++ rest) ∧ Laid tokens rest := by
  generalize hAll : (c :: t) :: tokens = all at h
  induction h with
  | nil => cases hAll
  | blank hBlank _ ih =>
    obtain ⟨rest, hSkip, hRest⟩ := ih hAll
    refine ⟨rest, ?_, hRest⟩
    rw [skipBlanks, List.dropWhile_cons_of_pos hBlank]
    exact hSkip
  | @token t' tokens' rest hRest =>
    cases hAll
    refine ⟨rest, ?_, hRest⟩
    rw [skipBlanks, List.cons_append, List.dropWhile_cons_of_neg (by rw [hc]; decide)]

theorem Laid.endsNumber (hBehind : Behind ts) (h : Laid ts s) : EndsNumber s := by
  cases h with
  | nil => nofun
  | @blank c tokens s hc _ =>
    intro d hd
    cases hd
    simp only [isBlank, Bool.or_eq_true, decide_eq_true_eq] at hc
    rcases hc with ((rfl | rfl) | rfl) | rfl <;> decide
  | @token t tokens s _ =>
    have hMem := hBehind t rfl
    simp only [List.mem_cons, List.not_mem_nil, or_false] at hMem
    intro d hd
    rcases hMem with rfl | rfl | rfl <;> cases hd <;> decide

/-- Every token stands in the text. -/
theorem Laid.sublist (h : Laid tokens s) : tokens.flatten.Sublist s := by
  induction h with
  | nil => exact List.Sublist.refl _
  | blank _ _ ih => exact ih.cons _
  | token t _ ih => exact (List.Sublist.refl t).append ih

/-! ### Tokens -/

namespace Written

theorem head_of_isNumber {text : List Char} (h : IsNumber text) :
    ∃ c t, text = c :: t ∧ (c = '-' ∨ c.isDigit = true) := by
  cases h with
  | intro hSign hWhole hFraction hExponent =>
    rcases hSign with rfl | rfl
    · rcases hWhole with rfl | ⟨⟨hne, hDigits⟩, -⟩
      · exact ⟨'0', _, rfl, .inr rfl⟩
      · obtain ⟨c, ds, rfl⟩ := List.exists_cons_of_ne_nil hne
        exact ⟨c, _, rfl, .inr (hDigits c List.mem_cons_self)⟩
    · exact ⟨'-', _, rfl, .inl rfl⟩

/-- A character that may begin a number is none that begins anything else. -/
theorem ne_of_number {c : Char} (h : c = '-' ∨ c.isDigit = true) (d : Char)
    (hd : d ≠ '-' ∧ d.isDigit = false) : c ≠ d := by
  rintro rfl
  rcases h with h | h
  · exact hd.1 h
  · rw [hd.2] at h
    cases h

theorem isBlank_of_number {c : Char} (h : c = '-' ∨ c.isDigit = true) : isBlank c = false := by
  have hSpace := ne_of_number h ' ' (by decide)
  have hTab := ne_of_number h '\t' (by decide)
  have hLine := ne_of_number h '\n' (by decide)
  have hReturn := ne_of_number h '\r' (by decide)
  simp [isBlank, hSpace, hTab, hLine, hReturn]

/-- A value begins with something that is neither a blank nor a closing bracket, and with an opening
one only if it has any. -/
theorem tokens_eq_cons (w : Written) : ∃ c t more, w.tokens = (c :: t) :: more ∧
    isBlank c = false ∧ c ≠ ']' ∧ (w.depth = 0 → c ≠ '[' ∧ c ≠ '\x7b') := by
  cases w with
  | null => exact ⟨'n', _, _, rfl, by decide, by decide, fun _ => by decide⟩
  | bool b => cases b <;> exact ⟨_, _, _, rfl, by decide, by decide, fun _ => by decide⟩
  | number text h =>
    obtain ⟨c, t, rfl, hc⟩ := head_of_isNumber h
    exact ⟨c, t, [], rfl, isBlank_of_number hc, ne_of_number hc ']' (by decide),
      fun _ => ⟨ne_of_number hc '[' (by decide), ne_of_number hc '\x7b' (by decide)⟩⟩
  | string glyphs => exact ⟨'"', _, [], rfl, by decide, by decide, fun _ => by decide⟩
  | list items => exact ⟨'[', [], _, rfl, by decide, by decide, nofun⟩
  | object members => exact ⟨'\x7b', [], _, rfl, by decide, by decide, nofun⟩

end Written

theorem openingCount_append (s t : List Char) :
    openingCount (s ++ t) = openingCount s + openingCount t := List.countP_append

theorem openingCount_le_of_sublist {t : List Char} (h : s.Sublist t) :
    openingCount s ≤ openingCount t := h.countP_le

namespace Written

mutual

/-- Brackets that are open at once stand in the text one by one. -/
theorem depth_le_openingCount : (w : Written) → w.depth ≤ openingCount w.tokens.flatten
  | null | bool _ | number _ _ | string _ => Nat.zero_le _
  | list items => by
    have h := elementDepth_le_openingCount true items
    rw [tokens, depth, List.flatten_cons, openingCount_append]
    have hOpen : openingCount ['['] = 1 := by decide
    omega
  | object members => by
    have h := memberDepth_le_openingCount true members
    rw [tokens, depth, List.flatten_cons, openingCount_append]
    have hOpen : openingCount ['\x7b'] = 1 := by decide
    omega

theorem elementDepth_le_openingCount (first : Bool) :
    (items : List Written) → elementDepth items ≤ openingCount (elementTokens first items).flatten
  | [] => Nat.zero_le _
  | w :: rest => by
    have hFirst := depth_le_openingCount w
    have hRest := elementDepth_le_openingCount false rest
    rw [elementTokens, elementDepth, List.flatten_append, List.flatten_append, openingCount_append,
      openingCount_append]
    omega

theorem memberDepth_le_openingCount (first : Bool) : (members : Members) →
    memberDepth members ≤ openingCount (memberTokens first members).flatten
  | [] => Nat.zero_le _
  | (key, w) :: rest => by
    have hFirst := depth_le_openingCount w
    have hRest := memberDepth_le_openingCount false rest
    rw [memberTokens, memberDepth, List.flatten_append, List.flatten_cons, List.flatten_cons,
      List.flatten_append]
    simp only [openingCount_append]
    omega

end

end Written

/-! ### Slots -/

namespace Punctuation

variable {p : Punctuation} {first : Bool} {c : Char} {t : List Char}

theorem elementSlot_item (hBlank : isBlank c = false) (hClose : c ≠ ']')
    (h : Laid (comma first ++ ((c :: t) :: tokens)) s) :
    ∃ start, p.elementSlot first s = .ok (.item start) ∧ Laid ((c :: t) :: tokens) start := by
  cases first with
  | true =>
    obtain ⟨rest, hSkip, hRest⟩ := Laid.uncons hBlank h
    refine ⟨_, ?_, hRest.token (c :: t)⟩
    rw [elementSlot, hSkip]
    simp [hClose]
  | false =>
    obtain ⟨behind, hComma, hBehind⟩ := Laid.uncons (c := ',') (t := []) (by decide) h
    obtain ⟨rest, hSkip, hRest⟩ := Laid.uncons hBlank hBehind
    refine ⟨_, ?_, hRest.token (c :: t)⟩
    rw [elementSlot, hComma]
    simp [hSkip, hClose]

theorem elementSlot_close (h : Laid ([']'] :: tokens) s) :
    ∃ rest, p.elementSlot first s = .ok (.close rest) ∧ Laid tokens rest := by
  obtain ⟨rest, hSkip, hRest⟩ := Laid.uncons (by decide) h
  refine ⟨rest, ?_, hRest⟩
  rw [elementSlot, hSkip]
  rfl

theorem memberSlot_item (h : Laid (comma first ++ (('"' :: t) :: tokens)) s) :
    ∃ rest, p.memberSlot first s = .ok (.item (t ++ rest)) ∧ Laid tokens rest := by
  cases first with
  | true =>
    obtain ⟨rest, hSkip, hRest⟩ := Laid.uncons (by decide) h
    refine ⟨rest, ?_, hRest⟩
    rw [memberSlot, hSkip]
    rfl
  | false =>
    obtain ⟨behind, hComma, hBehind⟩ := Laid.uncons (c := ',') (t := []) (by decide) h
    obtain ⟨rest, hSkip, hRest⟩ := Laid.uncons (by decide) hBehind
    refine ⟨rest, ?_, hRest⟩
    rw [memberSlot, hComma]
    simp [hSkip]

theorem memberSlot_close (h : Laid (['\x7d'] :: tokens) s) :
    ∃ rest, p.memberSlot first s = .ok (.close rest) ∧ Laid tokens rest := by
  obtain ⟨rest, hSkip, hRest⟩ := Laid.uncons (by decide) h
  refine ⟨rest, ?_, hRest⟩
  rw [memberSlot, hSkip]
  rfl

end Punctuation

/-! ### Readers -/

/-- What a reader makes of tokens, whatever is laid out behind them: it gives something and leaves
the rest, or it finds fault. -/
def Reader.Gives (r : Reader α) (tokens : List (List Char)) : Option α → Prop
  | some a => ∀ ⦃ts s⦄, Behind ts → Laid (tokens ++ ts) s →
    ∃ rest, r.read s = .ok (a, rest) ∧ Laid ts rest
  | none => ∀ ⦃ts s⦄, Behind ts → Laid (tokens ++ ts) s → ∃ fault, r.read s = .error fault

namespace Reader

variable {r : Reader α} {outcome : Option α}

/-- What a reader gives for tokens it gives for a text that consists of them. -/
theorem Gives.exists_read {a : α} (h : r.Gives tokens (some a)) (hLaid : Laid tokens s) :
    ∃ rest, r.read s = .ok (a, rest) := by
  rw [← List.append_nil tokens] at hLaid
  obtain ⟨rest, hRead, -⟩ := h behind_nil hLaid
  exact ⟨rest, hRead⟩

/-- A reader that goes on from what another one gives. -/
theorem Gives.bind {r' : Reader β} {tokens' : List (List Char)} (h : r.Gives tokens outcome)
    (f : α → Option β)
    (hRead : ∀ {ts s}, Laid (tokens' ++ ts) s → ∃ start, Laid (tokens ++ ts) start ∧
      (r'.read s).toOption = (r.read start).toOption.bind fun p => (f p.1).map (·, p.2)) :
    r'.Gives tokens' (outcome.bind f) := by
  cases outcome with
  | none =>
    intro ts s hBehind hLaid
    obtain ⟨start, hStart, hEq⟩ := hRead hLaid
    obtain ⟨fault, hFault⟩ := h hBehind hStart
    rw [hFault] at hEq
    exact toOption_eq_none_iff.mp hEq
  | some a =>
    rw [Option.bind_some]
    cases hf : f a with
    | none =>
      intro ts s hBehind hLaid
      obtain ⟨start, hStart, hEq⟩ := hRead hLaid
      obtain ⟨rest, hOk, -⟩ := h hBehind hStart
      rw [hOk] at hEq
      refine toOption_eq_none_iff.mp (hEq.trans ?_)
      show (f a).map (·, rest) = none
      rw [hf]
      rfl
    | some b =>
      intro ts s hBehind hLaid
      obtain ⟨start, hStart, hEq⟩ := hRead hLaid
      obtain ⟨rest, hOk, hRest⟩ := h hBehind hStart
      rw [hOk] at hEq
      refine ⟨rest, toOption_eq_some_iff.mp (hEq.trans ?_), hRest⟩
      show (f a).map (·, rest) = some (b, rest)
      rw [hf]
      rfl

theorem Gives.map (h : r.Gives tokens outcome) (f : α → β) :
    (r.map f).Gives tokens (outcome.map f) := by
  rw [Option.map_eq_bind]
  refine h.bind _ fun {ts s} hLaid => ⟨s, hLaid, ?_⟩
  show (mapReading f (r.read s)).toOption = _
  cases r.read s <;> rfl

theorem Gives.mapFault (h : r.Gives tokens outcome) (f : Fault → Fault) :
    (r.mapFault f).Gives tokens outcome := by
  rw [← Option.bind_fun_some outcome]
  refine h.bind _ fun {ts s} hLaid => ⟨s, hLaid, ?_⟩
  show ((r.read s).mapError f).toOption = _
  cases r.read s <;> rfl

theorem Gives.afterColon (h : r.Gives tokens outcome) (step : Step) :
    (r.afterColon step).Gives ([':'] :: tokens) outcome := by
  rw [← Option.bind_fun_some outcome]
  refine h.bind _ fun hLaid => ?_
  obtain ⟨rest, hSkip, hRest⟩ := Laid.uncons (by decide) hLaid
  refine ⟨rest, hRest, ?_⟩
  simp only [Reader.afterColon, readAfterColon, hSkip]
  show ((r.read rest).mapError _).toOption = _
  cases r.read rest <;> rfl

end Reader

/-! ### Lists and objects -/

/-- The reader gives each of the values in turn. -/
def GivesAll (item : Reader α) (items : List Written) (as : List α) : Prop :=
  List.Forall₂ (fun w a => item.Gives w.tokens (some a)) items as

/-- What the members of an object make of what has been gathered before them.  The first key that
cannot be read and the first member that is refused end the reading. -/
inductive Gathers (key : Reader κ) (member : ρ → κ → Reader ρ) :
    ρ → Members → Option ρ → Prop where
  | nil {gathered : ρ} : Gathers key member gathered [] (some gathered)
  | member {gathered gathered' : ρ} {glyphs : List Glyph} {k : κ} {w : Written}
      {members : Members} {outcome : Option ρ}
      (hKey : key.Spells glyphs (some k))
      (hMember : (member gathered k).Gives ([':'] :: w.tokens) (some gathered'))
      (hRest : Gathers key member gathered' members outcome) :
      Gathers key member gathered ((glyphs, w) :: members) outcome
  | badKey {gathered : ρ} {glyphs : List Glyph} {w : Written}
      {members : Members} (hKey : key.Spells glyphs none) :
      Gathers key member gathered ((glyphs, w) :: members) none
  | refused {gathered : ρ} {glyphs : List Glyph} {k : κ} {w : Written}
      {members : Members} (hKey : key.Spells glyphs (some k))
      (hMember : (member gathered k).Gives ([':'] :: w.tokens) none) :
      Gathers key member gathered ((glyphs, w) :: members) none

namespace Punctuation

variable {p : Punctuation}

section Elements

variable {item : Reader α}

/-- The slot of an element that stands next. -/
theorem elementSlot_written {first : Bool} {w : Written} {items : List Written}
    (h : Laid (Written.elementTokens first (w :: items) ++ ts) s) :
    ∃ start, p.elementSlot first s = .ok (.item start) ∧
      Laid (w.tokens ++ (Written.elementTokens false items ++ ts)) start := by
  obtain ⟨c, t, more, hTokens, hBlank, hClose, -⟩ := w.tokens_eq_cons
  rw [Written.elementTokens, List.append_assoc, List.append_assoc, hTokens, List.cons_append] at h
  rw [hTokens, List.cons_append]
  exact elementSlot_item hBlank hClose h

theorem readElements_written {items : List Written} {as : List α} (h : GivesAll item items as)
    (index : Nat) (hLaid : Laid (Written.elementTokens (index = 0) items ++ ts) s) :
    ∃ rest, p.readElements item index s = .ok (as, rest) ∧ Laid ts rest := by
  induction h generalizing index s with
  | nil =>
    obtain ⟨rest, hSlot, hRest⟩ := elementSlot_close hLaid
    exact ⟨rest, readElements_close hSlot, hRest⟩
  | @cons w a items as hItem _ ih =>
    obtain ⟨start, hSlot, hStart⟩ := elementSlot_written hLaid
    obtain ⟨after, hRead, hAfter⟩ := hItem (behind_elementTokens items ts) hStart
    obtain ⟨rest, hRest, hEnd⟩ := ih (index + 1) hAfter
    refine ⟨rest, ?_, hEnd⟩
    rw [readElements_item hSlot hRead, hRest]
    rfl

/-- The first element that is refused is the one the fault points at. -/
theorem readElements_refused {front : List Written} {w : Written} {as : List α}
    (h : GivesAll item front as) (hBad : item.Gives w.tokens none) (back : List Written)
    (index : Nat)
    (hLaid : Laid (Written.elementTokens (index = 0) (front ++ w :: back) ++ ts) s) :
    ∃ fault, p.readElements item index s =
      .error (Fault.within (.index (index + front.length)) fault) := by
  induction h generalizing index s with
  | nil =>
    obtain ⟨start, hSlot, hStart⟩ := elementSlot_written hLaid
    obtain ⟨fault, hRead⟩ := hBad (behind_elementTokens back ts) hStart
    exact ⟨fault, readElements_fault hSlot hRead⟩
  | @cons w' a front as hItem _ ih =>
    obtain ⟨start, hSlot, hStart⟩ := elementSlot_written hLaid
    obtain ⟨after, hRead, hAfter⟩ := hItem (behind_elementTokens (front ++ w :: back) ts) hStart
    obtain ⟨fault, hRest⟩ := ih (index + 1) hAfter
    refine ⟨fault, ?_⟩
    rw [readElements_item hSlot hRead, hRest, List.length_cons, Nat.add_right_comm, Nat.add_assoc]
    rfl

end Elements

section Members

variable {key : Reader κ} {member : ρ → κ → Reader ρ} {gathered : ρ}
  {members : Members}

/-- The slot of a member that stands next, and what its key is read as. -/
theorem memberSlot_written {first : Bool} {glyphs : List Glyph} {w : Written}
    (h : Laid (Written.memberTokens first ((glyphs, w) :: members) ++ ts) s) :
    ∃ rest, p.memberSlot first s = .ok (.item (glyphs.flatMap Glyph.chars ++ '"' :: rest)) ∧
      Laid (([':'] :: w.tokens) ++ (Written.memberTokens false members ++ ts)) rest := by
  rw [Written.memberTokens, Glyph.quoted] at h
  simp only [List.append_assoc, List.cons_append] at h
  obtain ⟨rest, hSlot, hRest⟩ := memberSlot_item h
  refine ⟨rest, ?_, hRest⟩
  rw [hSlot, List.append_assoc]
  rfl

theorem readMembers_written {result : ρ} {outcome : Option ρ}
    (h : Gathers key member gathered members outcome) (hOutcome : outcome = some result)
    (first : Bool) (hLaid : Laid (Written.memberTokens first members ++ ts) s) :
    ∃ rest, p.readMembers key member first gathered s = .ok (result, rest) ∧ Laid ts rest := by
  induction h generalizing first s with
  | nil =>
    cases hOutcome
    obtain ⟨rest, hSlot, hRest⟩ := memberSlot_close hLaid
    exact ⟨rest, readMembers_close hSlot, hRest⟩
  | member hKey hMember _ ih =>
    obtain ⟨behind, hSlot, hBehind⟩ := memberSlot_written hLaid
    obtain ⟨after, hRead, hAfter⟩ := hMember (behind_memberTokens _ ts) hBehind
    obtain ⟨rest, hRest, hEnd⟩ := ih hOutcome false hAfter
    refine ⟨rest, ?_, hEnd⟩
    rw [readMembers_member hSlot (toOption_eq_some_iff.mp (hKey behind)) hRead, hRest]
  | badKey => cases hOutcome
  | refused => cases hOutcome

theorem readMembers_refused {outcome : Option ρ} (h : Gathers key member gathered members outcome)
    (hOutcome : outcome = none) (first : Bool)
    (hLaid : Laid (Written.memberTokens first members ++ ts) s) :
    ∃ fault, p.readMembers key member first gathered s = .error fault := by
  induction h generalizing first s with
  | nil => cases hOutcome
  | member hKey hMember _ ih =>
    obtain ⟨behind, hSlot, hBehind⟩ := memberSlot_written hLaid
    obtain ⟨after, hRead, hAfter⟩ := hMember (behind_memberTokens _ ts) hBehind
    rw [readMembers_member hSlot (toOption_eq_some_iff.mp (hKey behind)) hRead]
    exact ih hOutcome false hAfter
  | badKey hKey =>
    obtain ⟨behind, hSlot, -⟩ := memberSlot_written hLaid
    obtain ⟨fault, hFault⟩ := toOption_eq_none_iff.mp (hKey behind)
    exact ⟨_, readMembers_key_fault hSlot hFault⟩
  | refused hKey hMember =>
    obtain ⟨behind, hSlot, hBehind⟩ := memberSlot_written hLaid
    obtain ⟨fault, hFault⟩ := hMember (behind_memberTokens _ ts) hBehind
    exact ⟨fault, readMembers_member_fault hSlot (toOption_eq_some_iff.mp (hKey behind)) hFault⟩

end Members

end Punctuation

end Conformance.Json
