import Conformance.Description.Union
import Conformance.Proofs.Brackets

/-! The pieces of a union.  A span is found by looking forward only, and it ends at the first
closing bracket; so a text in which every opening bracket is followed by a closing one can be cut
off at a `|` behind it without a change to its pieces. -/

namespace Conformance.Description

/-! ### Spans -/

theorem takeWhile_inSpanName {name t : List Char} {c : Char} (h : ∀ d ∈ name, inSpanName d = true)
    (hc : inSpanName c = false) : (name ++ c :: t).takeWhile inSpanName = name := by
  rw [List.takeWhile_append_of_pos h]
  simp [hc]

theorem dropWhile_inSpanName {name t : List Char} {c : Char} (h : ∀ d ∈ name, inSpanName d = true)
    (hc : inSpanName c = false) : (name ++ c :: t).dropWhile inSpanName = c :: t := by
  rw [List.dropWhile_append_of_pos h]
  simp [hc]

theorem span?_of_name {s : List Char} (h : ∀ c ∈ s, inSpanName c = true) : span? s = none := by
  have hDrop : s.dropWhile inSpanName = [] := List.dropWhile_eq_nil_iff.mpr h
  simp only [span?, hDrop]

theorem span?_bar {name : List Char} (h : ∀ c ∈ name, inSpanName c = true) (t : List Char) :
    span? (name ++ '|' :: t) = none := by
  have hBar : inSpanName '|' = false := by decide
  simp [span?, dropWhile_inSpanName h hBar]

theorem span?_open {name inner : List Char} (hName : ∀ c ∈ name, inSpanName c = true)
    (hInner : '>' ∉ inner) (rest : List Char) :
    span? (name ++ '<' :: (inner ++ '>' :: rest)) =
      if name.isEmpty || inner.isEmpty then none
      else some (name ++ '<' :: (inner ++ ['>']), rest) := by
  have hOpen : inSpanName '<' = false := by decide
  simp only [span?, dropWhile_inSpanName hName hOpen, takeWhile_inSpanName hName hOpen,
    takeWhile_ne_append hInner, dropWhile_ne_append hInner]

theorem spanName_cases (s : List Char) :
    (∀ c ∈ s, inSpanName c = true) ∨
      ∃ name t, (∀ c ∈ name, inSpanName c = true) ∧
        (s = name ++ '|' :: t ∨ s = name ++ '<' :: t) := by
  by_cases h : ∀ c ∈ s, inSpanName c = true
  · exact .inl h
  · have hs := List.takeWhile_append_dropWhile (p := inSpanName) (l := s)
    have hHead := List.head?_dropWhile_not inSpanName s
    cases hDrop : s.dropWhile inSpanName with
    | nil => exact absurd (List.dropWhile_eq_nil_iff.mp hDrop) h
    | cons c t =>
      rw [hDrop] at hs hHead
      refine .inr ⟨s.takeWhile inSpanName, t, fun d hd => List.mem_takeWhile_imp hd, ?_⟩
      have hc : c = '|' ∨ c = '<' := by
        by_contra hNot
        simp only [not_or] at hNot
        simp [inSpanName, hNot.1, hNot.2] at hHead
      rcases hc with rfl | rfl
      · exact .inl hs.symm
      · exact .inr hs.symm

/-- Every opening bracket is followed, at some distance, by a closing one. -/
def Closing (s : List Char) : Prop := ∀ before after, s = before ++ '<' :: after → '>' ∈ after

theorem Closing.of_append {s t : List Char} (h : Closing (s ++ t)) : Closing t := by
  intro before after hEq
  exact h (s ++ before) after (by rw [hEq, List.append_assoc])

theorem Closing.tail {c : Char} {s : List Char} (h : Closing (c :: s)) : Closing s :=
  Closing.of_append (s := [c]) h

theorem closing_of_not_mem {s : List Char} (h : '<' ∉ s) : Closing s := by
  rintro before after rfl
  exact absurd (List.mem_append_right before List.mem_cons_self) h

theorem closing_of_end (s : List Char) : Closing (s ++ ['>']) := by
  intro before after hEq
  have hLast : (before ++ '<' :: after).getLast? = some '>' := by
    rw [← hEq]
    simp
  cases after with
  | nil => simp at hLast
  | cons d rest =>
    have hRest : (d :: rest).getLast? = some '>' := by simpa using hLast
    exact List.mem_of_getLast? hRest

theorem span?_append_bar {s : List Char} (h : Closing s) (t : List Char) :
    span? (s ++ '|' :: t) = (span? s).map fun (span, rest) => (span, rest ++ '|' :: t) := by
  rcases spanName_cases s with hs | ⟨name, u, hName, rfl | rfl⟩
  · rw [span?_bar hs, span?_of_name hs]
    rfl
  · rw [List.append_assoc, List.cons_append, span?_bar hName, span?_bar hName]
    rfl
  · obtain ⟨inner, rest, rfl, hInner⟩ := List.eq_append_cons_of_mem (h name u rfl)
    rw [List.append_assoc, List.cons_append, List.append_assoc, List.cons_append,
      span?_open hName hInner, span?_open hName hInner]
    split <;> rfl

/-! ### Cuts -/

theorem addPiece_append (piece : List Char) (ps qs : List (List Char)) :
    addPiece piece (ps ++ qs) = addPiece piece ps ++ qs := by
  unfold addPiece
  split <;> rfl

theorem pieces_eq (s : List Char) : pieces s = addPiece (cut s).1 (cut s).2 := rfl

@[simp] theorem cut_nil : cut [] = ([], []) := by rw [cut]

@[simp] theorem pieces_nil : pieces [] = [] := by simp [pieces, addPiece]

theorem cut_of_span {s span rest : List Char} (h : span? s = some (span, rest)) :
    cut s = ([], span :: pieces rest) := by
  cases s with
  | nil => exact absurd h (by simp [span?])
  | cons c t =>
    rw [cut]
    split
    · next span' after h' =>
      rw [h] at h'
      cases h'
      rfl
    · next h' =>
      rw [h] at h'
      cases h'

@[simp] theorem cut_bar (rest : List Char) : cut ('|' :: rest) = ([], pieces rest) := by
  rw [cut]
  split
  · next span after h =>
    have hNone : span? ('|' :: rest) = none := span?_bar (fun _ h => absurd h List.not_mem_nil) rest
    rw [hNone] at h
    cases h
  · rfl

theorem cut_cons {c : Char} {rest : List Char} (h : span? (c :: rest) = none) (hc : c ≠ '|') :
    cut (c :: rest) = (c :: (cut rest).1, (cut rest).2) := by
  rw [cut]
  split
  · next span after h' =>
    rw [h] at h'
    cases h'
  · exact if_neg hc

theorem cut_append_bar {a : List Char} (h : Closing a) (b : List Char) :
    cut (a ++ '|' :: b) = ((cut a).1, (cut a).2 ++ pieces b) := by
  -- By the length: behind a span the rest is cut, not the tail.
  induction hn : a.length using Nat.strong_induction_on generalizing a with
  | _ n ih =>
    have hSpan := span?_append_bar h b
    cases a with
    | nil => simp
    | cons c rest =>
      cases hFirst : span? (c :: rest) with
      | some parts =>
        obtain ⟨span, after⟩ := parts
        rw [hFirst] at hSpan
        have hAfter : Closing after := by
          rw [span?_eq_some hFirst] at h
          exact h.of_append
        have hRest := ih after.length (hn ▸ length_of_span? hFirst) hAfter rfl
        rw [cut_of_span hSpan, cut_of_span hFirst, pieces_eq, hRest, addPiece_append]
        rfl
      | none =>
        rw [hFirst] at hSpan
        have hRest := ih rest.length (by simp [← hn]) h.tail rfl
        by_cases hc : c = '|'
        · subst hc
          rw [List.cons_append, cut_bar, cut_bar, pieces_eq, hRest, addPiece_append]
          rfl
        · rw [List.cons_append] at hSpan ⊢
          rw [cut_cons hSpan hc, cut_cons hFirst hc, hRest]

/-- The pieces in front of a `|` and behind it do not depend on one another. -/
theorem pieces_append_bar {a : List Char} (h : Closing a) (b : List Char) :
    pieces (a ++ '|' :: b) = pieces a ++ pieces b := by
  rw [pieces_eq, cut_append_bar h, addPiece_append]
  rfl

theorem cut_of_name {s : List Char} (h : ∀ c ∈ s, inSpanName c = true) : cut s = (s, []) := by
  induction s with
  | nil => exact cut_nil
  | cons c rest ih =>
    have hc : c ≠ '|' := fun hEq => absurd (h c List.mem_cons_self) (by simp [hEq, inSpanName])
    rw [cut_cons (span?_of_name h) hc, ih fun d hd => h d (List.mem_cons_of_mem c hd)]

theorem pieces_of_name {s : List Char} (h : ∀ c ∈ s, inSpanName c = true) :
    pieces s = addPiece s [] := by
  rw [pieces_eq, cut_of_name h]

theorem pieces_span {name inner : List Char} (hName : ∀ c ∈ name, inSpanName c = true)
    (hne : name ≠ []) (hInner : '>' ∉ inner) (hInner' : inner ≠ []) (rest : List Char) :
    pieces (name ++ '<' :: (inner ++ '>' :: rest)) =
      (name ++ '<' :: (inner ++ ['>'])) :: pieces rest := by
  have hSpan : span? (name ++ '<' :: (inner ++ '>' :: rest)) =
      some (name ++ '<' :: (inner ++ ['>']), rest) := by
    rw [span?_open hName hInner, if_neg (by simp [hne, hInner'])]
  rw [pieces_eq, cut_of_span hSpan]
  rfl

theorem cut_infix (s : List Char) : (cut s).1 <+: s ∧ ∀ p ∈ (cut s).2, p <:+: s := by
  induction hn : s.length using Nat.strong_induction_on generalizing s with
  | _ n ih =>
    have hPieces : ∀ t, t <:+ s → t.length < n → ∀ p ∈ pieces t, p <:+: s := by
      intro t ht hLess p hp
      obtain ⟨hGap, hRest⟩ := ih t.length hLess t rfl
      rw [pieces_eq] at hp
      unfold addPiece at hp
      split at hp
      · exact (hRest p hp).trans ht.isInfix
      · rcases List.mem_cons.mp hp with rfl | hp
        · exact hGap.isInfix.trans ht.isInfix
        · exact (hRest p hp).trans ht.isInfix
    cases s with
    | nil => simp
    | cons c rest =>
      cases hFirst : span? (c :: rest) with
      | some parts =>
        obtain ⟨span, after⟩ := parts
        have hSplit := span?_eq_some hFirst
        rw [cut_of_span hFirst]
        refine ⟨List.nil_prefix, fun p hp => ?_⟩
        rcases List.mem_cons.mp hp with rfl | hp
        · exact ⟨[], after, hSplit.symm⟩
        · exact hPieces after ⟨span, hSplit.symm⟩ (hn ▸ length_of_span? hFirst) p hp
      | none =>
        by_cases hc : c = '|'
        · subst hc
          rw [cut_bar]
          exact ⟨List.nil_prefix, hPieces rest (List.suffix_cons _ _) (by simp [← hn])⟩
        · obtain ⟨hGap, hRest⟩ := ih rest.length (by simp [← hn]) rest rfl
          rw [cut_cons hFirst hc]
          exact ⟨(List.prefix_cons_inj c).mpr hGap,
            fun p hp => (hRest p hp).trans (List.suffix_cons c rest).isInfix⟩

theorem infix_of_mem_pieces {s p : List Char} (h : p ∈ pieces s) : p <:+: s := by
  obtain ⟨hGap, hRest⟩ := cut_infix s
  rw [pieces_eq] at h
  unfold addPiece at h
  split at h
  · exact hRest p h
  · rcases List.mem_cons.mp h with rfl | h
    · exact hGap.isInfix
    · exact hRest p h

/-! ### Alternatives -/

theorem inSpanName_mark : ∀ c ∈ ['[', ']'], inSpanName c = true :=
  List.forall_mem_cons.mpr ⟨by decide, List.forall_mem_singleton.mpr (by decide)⟩

theorem expandShorthand_of_not_mem {piece : List Char} (h : '[' ∉ piece) :
    expandShorthand piece = piece := by
  have hDrop : piece.dropWhile (· ≠ '[') = [] :=
    List.dropWhile_eq_nil_iff.mpr (forall_ne_of_not_mem h)
  simp only [expandShorthand, hDrop]
  rfl

theorem expandShorthand_append {element : List Char} (h : '[' ∉ element) (hne : element ≠ []) :
    expandShorthand (element ++ ['[', ']']) = "array<".toList ++ element ++ ['>'] := by
  simp only [expandShorthand, takeWhile_ne_append h, dropWhile_ne_append h]
  simp [hne]

/-- The shorthand is not read where the element has a square bracket itself. -/
theorem expandShorthand_of_mem {element : List Char} (h : '[' ∈ element) :
    expandShorthand (element ++ ['[', ']']) = element ++ ['[', ']'] := by
  obtain ⟨before, after, rfl, hBefore⟩ := List.eq_append_cons_of_mem h
  have hDrop : (before ++ '[' :: after ++ ['[', ']']).dropWhile (· ≠ '[') =
      '[' :: (after ++ ['[', ']']) := by
    rw [List.append_assoc, List.cons_append, dropWhile_ne_append hBefore]
  have hLength : '[' :: (after ++ ['[', ']']) ≠ ['[', ']'] := fun hEq => by
    simpa using congrArg List.length hEq
  simp only [expandShorthand, hDrop]
  simp [hLength]

theorem expandShorthand_close (s : List Char) : expandShorthand (s ++ ['>']) = s ++ ['>'] := by
  unfold expandShorthand
  rw [if_neg]
  intro hMark
  have hDrop : (s ++ ['>']).dropWhile (· ≠ '[') = ['[', ']'] := by
    simpa using (Bool.and_eq_true_iff.mp hMark).1
  have hSuffix := List.dropWhile_suffix (l := s ++ ['>']) (· ≠ '[')
  rw [hDrop] at hSuffix
  obtain ⟨t, hEq⟩ := hSuffix
  have hLast := congrArg List.getLast? hEq
  simp at hLast

theorem alternatives_of_not_mem {d : String} (h : '[' ∉ d.toList) :
    alternatives d = (pieces d.toList).map String.ofList := by
  rw [alternatives]
  refine List.map_congr_left fun piece hp => ?_
  rw [expandShorthand_of_not_mem fun hMem => h ((infix_of_mem_pieces hp).mem hMem)]

theorem alternatives_append_bar {a : String} (h : Closing a.toList) (b : String) :
    alternatives (a ++ "|" ++ b) = alternatives a ++ alternatives b := by
  have hJoin : (a ++ "|" ++ b).toList = a.toList ++ '|' :: b.toList := by simp
  rw [alternatives, hJoin, pieces_append_bar h, List.map_append]
  rfl

/-- The alternatives of texts joined by `|` are those of each text in turn. -/
theorem alternatives_intercalate {texts : List String} (h : ∀ t ∈ texts, Closing t.toList) :
    alternatives ("|".intercalate texts) = texts.flatMap alternatives := by
  induction texts with
  | nil => simp [alternatives]
  | cons t rest ih =>
    cases rest with
    | nil => simp
    | cons u rest =>
      rw [String.intercalate_cons_cons, alternatives_append_bar (h t List.mem_cons_self),
        ih fun v hv => h v (List.mem_cons_of_mem t hv)]
      rfl

end Conformance.Description
