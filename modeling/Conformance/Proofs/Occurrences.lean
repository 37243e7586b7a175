import Conformance.Proofs.Extraction

/-! Extraction from arbitrary text.  `Occurrence.In` says that a declaration stands somewhere in a
text, and `Taken` which of them are taken: the leftmost, then the leftmost behind its end, and so
on.  What is extracted are the parameters of those that are taken; any other declaration in the text
begins within one of them. -/

namespace Conformance

/-- The texts of a list that stand behind an equal one, in order. -/
def repeated (names : List String) : List String :=
  (names.zipIdx.filter fun e => e.1 ∈ names.take e.2).map Prod.fst

theorem repetitions_eq_filter {earlier before : List String}
    (h : ∀ name, name ∈ earlier ↔ name ∈ before) (names : List String) :
    repetitions earlier names =
      ((names.zipIdx before.length).filter fun e => e.1 ∈ (before ++ names).take e.2).map
        Prod.fst := by
  induction names generalizing earlier before with
  | nil => rfl
  | cons name rest ih =>
    have hFirst : name ∈ (before ++ name :: rest).take before.length ↔ name ∈ earlier := by
      rw [List.take_left, h]
    have hMem (other : String) : other ∈ before ++ [name] ↔ other = name ∨ other ∈ earlier := by
      rw [List.mem_append, List.mem_singleton, ← h, or_comm]
    have hBefore : before ++ name :: rest = before ++ [name] ++ rest := by simp
    have hLength : before.length + 1 = (before ++ [name]).length := by simp
    rw [repetitions, List.zipIdx_cons, List.filter_cons]
    by_cases hName : name ∈ earlier
    · have hKnown (other : String) : other ∈ earlier ↔ other ∈ before ++ [name] := by
        rw [hMem]
        exact (or_iff_right_of_imp fun hEq => hEq ▸ hName).symm
      have hRest := ih hKnown
      rw [if_pos hName, if_pos (decide_eq_true (hFirst.mpr hName)), List.map_cons, hRest, hBefore,
        hLength]
    · have hRest := ih fun other => List.mem_cons.trans (hMem other).symm
      rw [if_neg hName, if_neg fun hTaken => hName (hFirst.mp (of_decide_eq_true hTaken)), hRest,
        hBefore, hLength]

theorem repetitions_eq_repeated (names : List String) : repetitions [] names = repeated names :=
  repetitions_eq_filter (fun _ => Iff.rfl) names

namespace Documentation

variable {text before front s rest : List Char} {p : Parameter} {start : Nat}

/-- A declaration within a text, by the places where it begins and where it ends. -/
structure Occurrence where
  start : Nat
  stop : Nat
  parameter : Parameter
deriving DecidableEq, Repr

/-- The declaration stands in a text, and its name goes on until white space or the end. -/
def Occurrence.In (o : Occurrence) (text : List Char) : Prop :=
  ∃ before front after, text = before ++ (front ++ after) ∧ o.start = before.length ∧
    o.stop = o.start + front.length ∧ Declares o.parameter front ∧ EndsRun after

/-- From a place on, the leftmost declaration of a text is taken, and then those that are taken from
its end on. -/
inductive Taken (text : List Char) : Nat → List Occurrence → Prop where
  | done {start : Nat} (none : ∀ o : Occurrence, o.In text → o.start < start) : Taken text start []
  | next {start : Nat} {o : Occurrence} {later : List Occurrence} (here : o.In text)
      (behind : start ≤ o.start)
      (leftmost : ∀ o' : Occurrence, o'.In text → start ≤ o'.start → o.start ≤ o'.start)
      (rest : Taken text o.stop later) : Taken text start (o :: later)

/-! ### Declarations in a text -/

section

variable {o o' : Occurrence}

theorem Declares.length_pos (h : Declares p front) : 0 < front.length := by
  obtain ⟨t, rfl⟩ := h.exists_mark
  simp only [List.length_append, List.length_cons]
  omega

theorem Occurrence.In.start_lt (h : o.In text) : o.start < text.length := by
  obtain ⟨before, front, after, rfl, hStart, -, hFront, -⟩ := h
  have := hFront.length_pos
  simp only [List.length_append]
  omega

/-- A declaration that stands at a place is found in the text from there on. -/
theorem Occurrence.In.exists_found (h : o.In (before ++ s)) (hStart : o.start = before.length) :
    ∃ front rest, s = front ++ rest ∧ o.stop = before.length + front.length ∧
      declaration? s = some (o.parameter, rest) := by
  obtain ⟨before', front, after, hText, hStart', hStop, hFront, hAfter⟩ := h
  obtain ⟨rfl, rfl⟩ := List.append_inj hText (hStart.symm.trans hStart')
  exact ⟨front, after, rfl, hStart ▸ hStop, declaration?_of_declares hFront hAfter⟩

theorem exists_in_of_declaration? (h : declaration? s = some (p, rest)) (before : List Char) :
    ∃ front, s = front ++ rest ∧
      (⟨before.length, before.length + front.length, p⟩ : Occurrence).In (before ++ s) := by
  obtain ⟨front, hFront, rfl, hRest⟩ := declaration?_eq_some_iff.mp h
  exact ⟨front, rfl, before, front, rest, rfl, rfl, rfl, hFront, hRest⟩

/-- At each place there is one declaration at most. -/
theorem Occurrence.In.eq_of_start (h : o.In text) (h' : o'.In text) (hStart : o.start = o'.start) :
    o = o' := by
  obtain ⟨before, front, after, hText, hPlace, -⟩ := id h
  rw [hText] at h h'
  obtain ⟨front₁, rest₁, hSplit₁, hStop₁, hFound₁⟩ := h.exists_found hPlace
  obtain ⟨front₂, rest₂, hSplit₂, hStop₂, hFound₂⟩ := h'.exists_found (hStart ▸ hPlace)
  rw [hFound₁] at hFound₂
  obtain ⟨hParameter, hRest⟩ := Prod.mk.inj (Option.some.inj hFound₂)
  have hFront : front₁ = front₂ := by
    rw [hSplit₁, hRest] at hSplit₂
    exact List.append_cancel_right hSplit₂
  have hStop : o.stop = o'.stop := by rw [hStop₁, hStop₂, hFront]
  cases o
  cases o'
  simp_all

/-! ### The declarations that are taken -/

theorem Taken.unique {os os' : List Occurrence} (h : Taken text start os)
    (h' : Taken text start os') : os = os' := by
  induction h generalizing os' with
  | done none =>
    cases h' with
    | done => rfl
    | next here behind => exact absurd (none _ here) (Nat.not_lt.mpr behind)
  | next here behind leftmost _ ih =>
    cases h' with
    | done none => exact absurd (none _ here) (Nat.not_lt.mpr behind)
    | next here' behind' leftmost' rest' =>
      have hStart := Nat.le_antisymm (leftmost _ here' behind') (leftmost' _ here behind)
      obtain rfl := here.eq_of_start here' hStart
      rw [ih rest']

/-- A place at which no declaration begins can be left out. -/
theorem Taken.of_succ {os : List Occurrence} (h : Taken text (start + 1) os)
    (hNone : ∀ o : Occurrence, o.In text → o.start ≠ start) : Taken text start os := by
  cases h with
  | done none =>
    exact .done fun o ho => Nat.lt_of_le_of_ne (Nat.le_of_lt_succ (none o ho)) (hNone o ho)
  | next here behind leftmost rest =>
    refine .next here (Nat.le_of_succ_le behind) (fun o' ho' hStart => ?_) rest
    exact leftmost o' ho' (Nat.lt_of_le_of_ne hStart (hNone o' ho').symm)

/-- Every declaration from the place on begins within one that is taken. -/
theorem Taken.covers {os : List Occurrence} (h : Taken text start os) (ho : o.In text)
    (hStart : start ≤ o.start) : ∃ t ∈ os, t.start ≤ o.start ∧ o.start < t.stop := by
  induction h with
  | done none => exact absurd (none o ho) (Nat.not_lt.mpr hStart)
  | @next _ t later here behind leftmost _ ih =>
    rcases Nat.lt_or_ge o.start t.stop with hWithin | hBehind
    · exact ⟨t, List.mem_cons_self, leftmost o ho hStart, hWithin⟩
    · obtain ⟨t', ht', hCovers⟩ := ih hBehind
      exact ⟨t', List.mem_cons_of_mem t ht', hCovers⟩

end

/-- The parameters found in a text from a place on are those of the declarations taken there. -/
theorem exists_taken (before s : List Char) : ∃ os, Taken (before ++ s) before.length os ∧
    os.map Occurrence.parameter = declarations s := by
  fun_induction declarations s generalizing before with
  | case1 =>
    refine ⟨[], .done fun o ho => ?_, rfl⟩
    simpa using ho.start_lt
  | case2 c s p after hFound ih =>
    obtain ⟨front, hSplit, hIn⟩ := exists_in_of_declaration? hFound before
    obtain ⟨os, hTaken, hParameters⟩ := ih (before ++ front)
    rw [List.append_assoc, ← hSplit, List.length_append] at hTaken
    exact ⟨_ :: os, .next hIn (Nat.le_refl _) (fun _ _ => id) hTaken,
      congrArg (p :: ·) hParameters⟩
  | case3 c s hNone ih =>
    obtain ⟨os, hTaken, hParameters⟩ := ih (before ++ [c])
    rw [List.append_assoc, List.singleton_append, List.length_append] at hTaken
    refine ⟨os, hTaken.of_succ fun o ho hStart => ?_, hParameters⟩
    obtain ⟨_, _, -, -, hFound⟩ := ho.exists_found hStart
    rw [hNone] at hFound
    cases hFound

/-! ### Extraction -/

theorem extract_eq (text : String) : extract text =
    if ((declarations text.toList).map Parameter.name).Nodup then .ok (declarations text.toList)
    else .error ⟨repeated ((declarations text.toList).map Parameter.name)⟩ := by
  rw [← repetitions_eq_repeated]
  unfold extract
  dsimp only
  split
  · next hNone => rw [if_pos (Parameter.repeatedNames_eq_nil_iff.mp hNone)]
  · next hSome =>
    rw [if_neg fun hNodup => hSome (Parameter.repeatedNames_eq_nil_iff.mpr hNodup)]
    rfl

/-- Whatever the text, there is one way to take its declarations, and these are extracted: the
parameters in order when their names are distinct, else the names that occur in an earlier one, in
order and as often as they do.  Every declaration in the text begins within one that is taken. -/
theorem extract_of_taken (text : String) : ∃ taken, Taken text.toList 0 taken ∧
    (∀ other, Taken text.toList 0 other → other = taken) ∧
    extract text = (if (taken.map (·.parameter.name)).Nodup then .ok (taken.map (·.parameter))
      else .error ⟨repeated (taken.map (·.parameter.name))⟩) ∧
    ∀ o : Occurrence, o.In text.toList → ∃ t ∈ taken, t.start ≤ o.start ∧ o.start < t.stop := by
  obtain ⟨taken, hTaken, hParameters⟩ := exists_taken [] text.toList
  have hNames : (declarations text.toList).map Parameter.name = taken.map (·.parameter.name) := by
    rw [← hParameters, List.map_map]
    rfl
  refine ⟨taken, hTaken, fun other hOther => hOther.unique hTaken, ?_, fun o ho => ?_⟩
  · rw [extract_eq, hNames, ← hParameters]
  · exact hTaken.covers ho (Nat.zero_le _)

/-- A marker that is glued to a name begins no declaration of its own. -/
theorem extract_of_taken_glued :
    (⟨12, 23, ⟨"c", "b", false⟩⟩ : Occurrence).In "?@var int $a@param b $c".toList ∧
    ∃ taken, Taken "?@var int $a@param b $c".toList 0 taken ∧
      ∃ t ∈ taken, t.start ≤ 12 ∧ 12 < t.stop := by
  have hGap : IsGap [' '] := by decide
  have hIn : (⟨12, 23, ⟨"c", "b", false⟩⟩ : Occurrence).In "?@var int $a@param b $c".toList :=
    ⟨"?@var int $a".toList, "@param b $c".toList, [], by decide, by decide, by decide,
      .intro .param hGap (by decide) hGap (by decide), endsRun_nil⟩
  obtain ⟨taken, hTaken, -, -, hCovers⟩ := extract_of_taken "?@var int $a@param b $c"
  exact ⟨hIn, taken, hTaken, hCovers _ hIn⟩

end Documentation

end Conformance
