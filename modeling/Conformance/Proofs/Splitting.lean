import Conformance.Proofs.Pieces

/-! What the pieces of a union are.  They are the text without some of its bars, in order; each of
them is a span or stands between spans and bars, so that there is nothing in it to cut at; and a
piece on its own is not cut again. -/

namespace Conformance.Description

variable {s p : List Char} {ps : List (List Char)}

/-- A text put together from pieces, with any number of bars before, between and behind them. -/
inductive Barred : List (List Char) → List Char → Prop where
  | nil : Barred [] []
  | bar {ps : List (List Char)} {s : List Char} (h : Barred ps s) : Barred ps ('|' :: s)
  | piece (p : List Char) {ps : List (List Char)} {s : List Char} (h : Barred ps s) :
      Barred (p :: ps) (p ++ s)

/-- A name and, in brackets, an argument that ends at the first closing bracket. -/
inductive IsSpan : List Char → Prop where
  | intro {name inner : List Char} (hName : ∀ c ∈ name, c ≠ '<' ∧ c ≠ '|') (hne : name ≠ [])
      (hInner : '>' ∉ inner) (hInner' : inner ≠ []) : IsSpan (name ++ '<' :: (inner ++ ['>']))

/-- A text in which there is nothing to cut at. -/
structure Uncut (s : List Char) : Prop where
  bar : '|' ∉ s
  span : ∀ span, IsSpan span → ¬ span <:+: s

/-! ### Spans -/

theorem inSpanName_iff {c : Char} : inSpanName c = true ↔ c ≠ '<' ∧ c ≠ '|' := by
  simp [inSpanName]

theorem span?_unclosed {name inner : List Char} (hName : ∀ c ∈ name, inSpanName c = true)
    (hInner : '>' ∉ inner) : span? (name ++ '<' :: inner) = none := by
  have hOpen : inSpanName '<' = false := by decide
  have hDrop : inner.dropWhile (· ≠ '>') = [] :=
    List.dropWhile_eq_nil_iff.mpr (forall_ne_of_not_mem hInner)
  simp only [span?, dropWhile_inSpanName hName hOpen, hDrop]

/-- What is found at the front of a text is a span, and every span there is found. -/
theorem span?_eq_some_iff {rest : List Char} :
    span? s = some (p, rest) ↔ IsSpan p ∧ s = p ++ rest := by
  constructor
  · intro h
    refine ⟨?_, span?_eq_some h⟩
    rcases spanName_cases s with hs | ⟨name, u, hName, rfl | rfl⟩
    · rw [span?_of_name hs] at h
      cases h
    · rw [span?_bar hName] at h
      cases h
    · by_cases hClose : '>' ∈ u
      · obtain ⟨inner, after, rfl, hInner⟩ := List.eq_append_cons_of_mem hClose
        rw [span?_open hName hInner] at h
        split at h
        · cases h
        · next hFull =>
          cases h
          simp only [Bool.or_eq_true, List.isEmpty_iff, not_or] at hFull
          exact .intro (fun c hc => inSpanName_iff.mp (hName c hc)) hFull.1 hInner hFull.2
      · rw [span?_unclosed hName hClose] at h
        cases h
  · rintro ⟨hSpan, rfl⟩
    cases hSpan with
    | intro hName hne hInner hInner' =>
      have hRun := fun c hc => inSpanName_iff.mpr (hName c hc)
      have hFound := span?_open hRun hInner rest
      rw [if_neg (by simp [hne, hInner'])] at hFound
      simpa using hFound

theorem IsSpan.ne_nil (h : IsSpan p) : p ≠ [] := by
  cases h
  simp

theorem span?_eq_none_iff : span? s = none ↔ ∀ p, IsSpan p → ¬ p <+: s := by
  constructor
  · rintro hNone p hSpan ⟨rest, rfl⟩
    have hFound : span? (p ++ rest) = some (p, rest) := span?_eq_some_iff.mpr ⟨hSpan, rfl⟩
    rw [hNone] at hFound
    cases hFound
  · intro h
    by_contra hSome
    obtain ⟨⟨p, rest⟩, hFound⟩ := Option.ne_none_iff_exists'.mp hSome
    obtain ⟨hSpan, rfl⟩ := span?_eq_some_iff.mp hFound
    exact h p hSpan (List.prefix_append p rest)

/-! ### Texts with nothing to cut at -/

theorem uncut_nil : Uncut [] where
  bar := List.not_mem_nil
  span _ hSpan hInfix := hSpan.ne_nil (List.infix_nil.mp hInfix)

/-- A span within a text begins with its first character or lies behind that. -/
theorem uncut_cons_iff {c : Char} : Uncut (c :: s) ↔
    c ≠ '|' ∧ (∀ p, IsSpan p → ¬ p <+: c :: s) ∧ Uncut s := by
  constructor
  · rintro ⟨hBar, hSpan⟩
    rw [List.mem_cons, not_or] at hBar
    refine ⟨Ne.symm hBar.1, fun p hp hPrefix => hSpan p hp hPrefix.isInfix, hBar.2, ?_⟩
    exact fun p hp hInfix => hSpan p hp (List.infix_cons hInfix)
  · rintro ⟨hc, hFront, hBar, hSpan⟩
    refine ⟨fun hMem => ?_, fun p hp hInfix => ?_⟩
    · rcases List.mem_cons.mp hMem with h | h
      · exact hc h.symm
      · exact hBar h
    · rcases List.infix_cons_iff.mp hInfix with h | h
      · exact hFront p hp h
      · exact hSpan p hp h

/-- The gap in front of the first cut, followed by the pieces behind it. -/
structure Splits (s gap : List Char) (ps : List (List Char)) : Prop where
  uncut : Uncut gap
  behind : ∃ t, s = gap ++ t ∧ Barred ps t
  forms : ∀ p ∈ ps, p ≠ [] ∧ (IsSpan p ∨ Uncut p)

theorem Splits.barred {gap : List Char} (h : Splits s gap ps) : Barred (addPiece gap ps) s := by
  obtain ⟨t, rfl, hBarred⟩ := h.behind
  unfold addPiece
  split
  · next hEmpty =>
    rw [List.isEmpty_iff.mp hEmpty]
    exact hBarred
  · exact .piece gap hBarred

theorem Splits.addPiece_forms {gap : List Char} (h : Splits s gap ps) :
    ∀ p ∈ addPiece gap ps, p ≠ [] ∧ (IsSpan p ∨ Uncut p) := by
  unfold addPiece
  split
  · exact h.forms
  · next hFull =>
    have hne : gap ≠ [] := fun hNil => hFull (List.isEmpty_iff.mpr hNil)
    exact List.forall_mem_cons.mpr ⟨⟨hne, .inr h.uncut⟩, h.forms⟩

theorem splits_cut (s : List Char) : Splits s (cut s).1 (cut s).2 := by
  -- By the length, as the text behind a span is cut next.
  induction hn : s.length using Nat.strong_induction_on generalizing s with
  | _ n ih =>
    cases s with
    | nil =>
      rw [cut_nil]
      exact ⟨uncut_nil, ⟨[], rfl, .nil⟩, fun p hp => absurd hp List.not_mem_nil⟩
    | cons c rest =>
      cases hFirst : span? (c :: rest) with
      | some parts =>
        obtain ⟨span, after⟩ := parts
        have hLater := ih after.length (hn ▸ length_of_span? hFirst) after rfl
        obtain ⟨hSpan, hText⟩ := span?_eq_some_iff.mp hFirst
        rw [cut_of_span hFirst, pieces_eq]
        refine ⟨uncut_nil, ⟨c :: rest, rfl, ?_⟩, ?_⟩
        · rw [hText]
          exact .piece span hLater.barred
        · exact List.forall_mem_cons.mpr ⟨⟨hSpan.ne_nil, .inl hSpan⟩, hLater.addPiece_forms⟩
      | none =>
        have hLater := ih rest.length (by simp [← hn]) rest rfl
        by_cases hc : c = '|'
        · subst hc
          rw [cut_bar, pieces_eq]
          exact ⟨uncut_nil, ⟨'|' :: rest, rfl, .bar hLater.barred⟩, hLater.addPiece_forms⟩
        · rw [cut_cons hFirst hc]
          obtain ⟨t, hText, hBarred⟩ := hLater.behind
          refine ⟨uncut_cons_iff.mpr ⟨hc, fun p hp hPrefix => ?_, hLater.uncut⟩,
            ⟨t, congrArg (c :: ·) hText, hBarred⟩, hLater.forms⟩
          -- A span that begins in the gap would have been found in the text.
          have hWhole : p <+: c :: rest := by
            refine hPrefix.trans ((List.prefix_cons_inj c).mpr ?_)
            exact ⟨t, hText.symm⟩
          exact span?_eq_none_iff.mp hFirst p hp hWhole

theorem cut_of_uncut (h : Uncut s) : cut s = (s, []) := by
  induction s with
  | nil => exact cut_nil
  | cons c rest ih =>
    obtain ⟨hc, hFront, hRest⟩ := uncut_cons_iff.mp h
    rw [cut_cons (span?_eq_none_iff.mpr hFront) hc, ih hRest]

theorem pieces_of_uncut (h : Uncut s) (hne : s ≠ []) : pieces s = [s] := by
  rw [pieces_eq, cut_of_uncut h]
  simp [addPiece, hne]

theorem pieces_of_isSpan (h : IsSpan p) : pieces p = [p] := by
  have hFound : span? p = some (p, []) := span?_eq_some_iff.mpr ⟨h, (List.append_nil p).symm⟩
  rw [pieces_eq, cut_of_span hFound, pieces_nil]
  rfl

theorem Barred.eq_bar_of_nil (h : Barred [] s) : ∀ c ∈ s, c = '|' := by
  generalize hps : ([] : List (List Char)) = ps at h
  induction h with
  | nil => exact fun c hc => absurd hc List.not_mem_nil
  | bar _ ih => exact List.forall_mem_cons.mpr ⟨rfl, ih hps⟩
  | piece => cases hps

theorem pieces_of_bars (h : ∀ c ∈ s, c = '|') : pieces s = [] := by
  induction s with
  | nil => exact pieces_nil
  | cons c rest ih =>
    obtain ⟨rfl, hRest⟩ := List.forall_mem_cons.mp h
    rw [pieces_eq, cut_bar, ih hRest]
    rfl

/-- Nothing but bars is lost in a split: the pieces with bars between them are the text.  No piece
is empty; each is a span, or there is neither a bar nor a span in it; on its own it is its only
piece; and only a text of bars has none. -/
theorem pieces_barred (s : List Char) :
    Barred (pieces s) s ∧
    (∀ p ∈ pieces s, p ≠ [] ∧ (IsSpan p ∨ Uncut p) ∧ pieces p = [p]) ∧
    (pieces s = [] ↔ ∀ c ∈ s, c = '|') := by
  have hSplits := splits_cut s
  have hBarred : Barred (pieces s) s := hSplits.barred
  refine ⟨hBarred, fun p hp => ?_, fun hNone => ?_, pieces_of_bars⟩
  · obtain ⟨hne, hForm⟩ := hSplits.addPiece_forms p hp
    refine ⟨hne, hForm, ?_⟩
    rcases hForm with hSpan | hUncut
    · exact pieces_of_isSpan hSpan
    · exact pieces_of_uncut hUncut hne
  · rw [hNone] at hBarred
    exact hBarred.eq_bar_of_nil

/-- A bracket without a name, a bar within a span, and bars at both ends. -/
theorem pieces_barred_span :
    pieces "||<a<b|c>x|".toList = [['<'], "a<b|c>".toList, ['x']] ∧
    Barred [['<'], "a<b|c>".toList, ['x']] "||<a<b|c>x|".toList ∧
    pieces "a<b|c>".toList = ["a<b|c>".toList] := by
  have hPieces : pieces "||<a<b|c>x|".toList = [['<'], "a<b|c>".toList, ['x']] := by
    decide +kernel
  obtain ⟨hBarred, hForms, -⟩ := pieces_barred "||<a<b|c>x|".toList
  rw [hPieces] at hBarred hForms
  obtain ⟨-, -, hAlone⟩ := hForms "a<b|c>".toList (by decide)
  exact ⟨hPieces, hBarred, hAlone⟩

end Conformance.Description
