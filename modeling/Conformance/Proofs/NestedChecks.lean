import Conformance.Proofs.Dispatch

/-! How many checks stand inside one another.  Each check asks only for checks of parts with fewer
opening brackets.  The depth of brackets bounds the checks as well where no closing bracket is
stray; a stray one sets the counter back for what follows it, and descriptions of depth two then
need any number of checks inside one another. -/

namespace Conformance

open Description

/-! ### Inspections that ask for nothing more -/

namespace Inspection

variable {p q : String → Value → Prop} {i : Inspection}

theorem EachAsk.and (hp : i.EachAsk p) (hq : i.EachAsk q) :
    i.EachAsk fun d v => p d v ∧ q d v := by
  induction hp with
  | settled verdict => exact .settled verdict
  | ask here _ ih =>
    cases hq with
    | ask here' later' => exact .ask ⟨here, here'⟩ fun verdict => ih verdict (later' verdict)

theorem eachAsk_of_forall (h : ∀ d v, p d v) (i : Inspection) : i.EachAsk p := by
  induction i with
  | settled verdict => exact .settled verdict
  | ask d v next ih => exact .ask (h d v) ih

variable {answer : String → Value → Option Verdict} {d : String} {v : Value}

theorem run_require_none (h : answer d v = none) (wider : Mismatch → Mismatch) (i : Inspection) :
    (require d v wider i).run answer = none := by
  rw [require, run, h]

theorem run_require_accepted (h : answer d v = some .accepted) (wider : Mismatch → Mismatch)
    (i : Inspection) : (require d v wider i).run answer = i.run answer := by
  rw [require, run, h]
  rfl

theorem run_require_isSome (h : (answer d v).isSome) (wider : Mismatch → Mismatch)
    (hNext : answer d v = some .accepted → (i.run answer).isSome) :
    ((require d v wider i).run answer).isSome := by
  obtain ⟨verdict, hVerdict⟩ := Option.isSome_iff_exists.mp h
  rcases verdict with rejection | accepted
  · rw [require, run, hVerdict]
    rfl
  · rw [run_require_accepted hVerdict]
    exact hNext hVerdict

theorem run_firstSettled_singleton (i : Inspection) :
    (firstSettled none [i]).run answer = i.run answer := by
  rw [firstSettled, run_andThen]
  rcases i.run answer with _ | ((cause | cause) | accepted) <;> rfl

end Inspection

open Inspection

/-- The inspection of entries comes to a verdict when every key does, and every value whose key may
have been accepted. -/
theorem Builtin.run_inspectEntries_isSome {answer : String → Value → Option Verdict}
    {keyType valueType : String} {entries : List (Key × Value)} (position : Nat)
    (hKey : ∀ e ∈ entries, (answer keyType (.ofKey e.1)).isSome)
    (hValue : ∀ e ∈ entries, keyType = "" ∨ answer keyType (.ofKey e.1) = some .accepted →
      (answer valueType e.2).isSome) :
    ((inspectEntries keyType valueType position entries).run answer).isSome := by
  induction entries generalizing position with
  | nil => rfl
  | cons e rest ih =>
    have hRest := ih (position + 1) (fun e he => hKey e (List.mem_cons_of_mem _ he))
      fun e he => hValue e (List.mem_cons_of_mem _ he)
    have hEntry : keyType = "" ∨ answer keyType (.ofKey e.1) = some .accepted →
        ((Inspection.require valueType e.2 (.inValue position e.1)
          (inspectEntries keyType valueType (position + 1) rest)).run answer).isSome :=
      fun hAdmitted => run_require_isSome (hValue e List.mem_cons_self hAdmitted) _ fun _ => hRest
    rw [inspectEntries]
    split
    · next hEmpty => exact hEntry (.inl (String.isEmpty_iff.mp hEmpty))
    · exact run_require_isSome (hKey e List.mem_cons_self) _ fun hAccepted =>
        hEntry (.inr hAccepted)

theorem Builtin.inspect_array {argument : String} (given : argument ≠ "")
    (entries : List (Key × Value)) :
    Builtin.array.inspect .standard argument (.array entries) =
      inspectEntries (keyValue argument).1 (keyValue argument).2 0 entries := by
  rw [inspect, inspectArray, if_neg fun hEmpty => given (String.isEmpty_iff.mp hEmpty)]
  rfl

theorem Builtin.run_inspectArray_isSome {answer : String → Value → Option Verdict}
    {argument : String} {entries : List (Key × Value)} (given : argument ≠ "")
    (hKey : ∀ k, (answer (keyValue argument).1 (.ofKey k)).isSome)
    (hValue : ∀ k v, (keyValue argument).1 = "" ∨
      answer (keyValue argument).1 (.ofKey k) = some .accepted →
      (answer (keyValue argument).2 v).isSome) :
    ((Builtin.array.inspect .standard argument (.array entries)).run answer).isSome := by
  rw [inspect_array given]
  exact run_inspectEntries_isSome 0 (fun e _ => hKey e.1) fun e _ => hValue e.1 e.2

namespace Checker

variable {policy : Policy} {d : String} {v : Value}

theorem eachAsk_named (d : String) (v : Value) :
    (({ policy } : Checker).inspect d v).EachAsk fun _ _ =>
      ∃ name b, outerName d = .ok name ∧ Builtin.named name = some b := by
  rcases inspect_cases (c := { policy }) rfl d with ⟨cause, h⟩ | ⟨name, b, hName, hb, -⟩ | ⟨name, h⟩
  · rw [h]
    exact .settled _
  · exact eachAsk_of_forall (fun _ _ => ⟨name, b, hName, hb⟩) _
  · rw [h]
    exact .settled _

theorem checkWithin_isSome_of_quiet {n : Nat}
    (h : (({ policy } : Checker).inspect d v).EachAsk fun _ _ => False) :
    (({ policy } : Checker).checkWithin (n + 1) d v).isSome := by
  rw [checkWithin]
  exact (h.imp fun _ _ hFalse => hFalse.elim).run_isSome

/-- A key is not an array, so its check asks for nothing. -/
theorem checkWithin_ofKey_isSome {n : Nat} (d : String) (k : Key) :
    (({ policy } : Checker).checkWithin (n + 1) d (.ofKey k)).isSome := by
  refine checkWithin_isSome_of_quiet (((ofBuiltins policy).eachAsk_inspect d _).imp ?_)
  intro d' v' hAsks
  cases hAsks with
  | key array => cases k <;> cases array
  | value array => cases k <;> cases array

/-- A type that accepts a key is built in: a key is not an object. -/
theorem named_of_accepts_key {k : Key}
    (h : ({ policy } : Checker).check d (.ofKey k) = .accepted) :
    ∃ name b, outerName d = .ok name ∧ Builtin.named name = some b := by
  rw [(ofBuiltins policy).check_eq] at h
  rcases inspect_cases (c := { policy }) rfl d with
    ⟨cause, hEq⟩ | ⟨name, b, hName, hb, -⟩ | ⟨name, hEq⟩
  · rw [hEq] at h
    cases h
  · exact ⟨name, b, hName, hb⟩
  · rw [hEq, resolve] at h
    unfold judgeInstance at h
    split at h
    · cases h
    · cases k <;> cases h

/-! ### The bound by opening brackets -/

theorem checkWithin_count_isSome (policy : Policy) (d : String) (v : Value) :
    (({ policy } : Checker).checkWithin (d.toList.count '<' + 1) d v).isSome :=
  checkWithin_isSome_of_measure (fun d => d.toList.count '<')
    (fun d v => ((ofBuiltins policy).eachAsk_inspect d v).imp fun _ _ hAsks => hAsks.count_lt)
    (Nat.lt_succ_self _) v

end Checker

/-! ### The bound by depth, without stray brackets -/

namespace Description

/-- No closing bracket is met at depth zero. -/
inductive Matched : Nat → List Char → Prop where
  | nil (depth : Nat) : Matched depth []
  | cons {depth : Nat} {c : Char} {rest : List Char} (opened : c = '>' → 0 < depth)
      (later : Matched (level depth c) rest) : Matched depth (c :: rest)

theorem matched_cons {depth : Nat} {c : Char} {rest : List Char} :
    Matched depth (c :: rest) ↔ (c = '>' → 0 < depth) ∧ Matched (level depth c) rest := by
  constructor
  · intro h
    cases h with
    | cons opened later => exact ⟨opened, later⟩
  · exact fun h => .cons h.1 h.2

theorem matched_append {depth : Nat} {s t : List Char} :
    Matched depth (s ++ t) ↔ Matched depth s ∧ Matched (levelAfter depth s) t := by
  induction s generalizing depth with
  | nil => exact ⟨fun h => ⟨.nil depth, h⟩, fun h => h.2⟩
  | cons c rest ih =>
    rw [List.cons_append, matched_cons, matched_cons, ih, levelAfter_cons, and_assoc]

theorem le_of_matched_replicate {depth n : Nat} (h : Matched depth (List.replicate n '>')) :
    n ≤ depth := by
  induction n generalizing depth with
  | zero => exact Nat.zero_le _
  | succ n ih =>
    rw [List.replicate_succ, matched_cons, level_close] at h
    have hFirst := h.1 rfl
    have hRest := ih h.2
    omega

theorem lt_deepestFrom_of_matched {depth opened : Nat} {name body : List Char}
    (h : Matched depth ((name ++ '<' :: (body ++ ['>'])) ++ List.replicate opened '>')) :
    opened < deepestFrom depth (name ++ '<' :: (body ++ ['>'])) := by
  have hSplit : name ++ '<' :: (body ++ ['>']) = (name ++ '<' :: body) ++ ['>'] := by simp
  rw [hSplit] at h ⊢
  rw [List.append_assoc, List.singleton_append, ← List.replicate_succ, matched_append] at h
  have hFollow := le_of_matched_replicate h.2
  have hReached := levelAfter_le_deepestFrom depth
    (show name ++ '<' :: body ≠ [] from List.append_ne_nil_of_right_ne_nil _ (List.cons_ne_nil _ _))
  rw [deepestFrom_append]
  omega

theorem matched_part {depth opened : Nat} {before part : List Char}
    (h : Matched depth ((before ++ (part ++ ['>'])) ++ List.replicate opened '>')) :
    Matched (levelAfter depth before) (part ++ List.replicate (opened + 1) '>') ∧
      deepestFrom (levelAfter depth before) part ≤
        deepestFrom depth (before ++ (part ++ ['>'])) := by
  constructor
  · rw [List.append_assoc, List.append_assoc, matched_append] at h
    exact h.2
  · rw [deepestFrom_append, deepestFrom_append]
    omega

/-- Inside a bracket of a text of depth one no further bracket opens before one closes. -/
theorem close_mem_of_deepestFrom {before after : List Char}
    (h : deepestFrom 1 (before ++ '<' :: after) ≤ 1) : '>' ∈ before := by
  by_contra hNone
  have hLevel : ∀ (s : List Char) (depth : Nat), '>' ∉ s → depth ≤ levelAfter depth s := by
    intro s
    induction s with
    | nil => exact fun depth _ => Nat.le_refl depth
    | cons c rest ih =>
      intro depth hs
      rw [List.mem_cons, not_or] at hs
      refine Nat.le_trans ?_ (ih (level depth c) hs.2)
      unfold level
      split
      · omega
      · rw [if_neg (Ne.symm hs.1)]
  have := hLevel before 1 hNone
  rw [deepestFrom_append, deepestFrom, level_open] at h
  omega

/-- In a text that is read inside a bracket and does not go deeper, no bracket opens behind names
without a closing one. -/
theorem open_not_mem_of_flat {before text : List Char}
    (h : deepestFrom 1 (before ++ text) ≤ 1) (hBefore : '>' ∉ before)
    (hName : '>' ∉ nameChars text) : '<' ∉ text := by
  intro hOpen
  obtain ⟨after, hAfter⟩ := eq_nameChars_append hOpen
  generalize nameChars text = name at hName hAfter
  rw [hAfter, ← List.append_assoc] at h
  rcases List.mem_append.mp (close_mem_of_deepestFrom h) with hMem | hMem
  · exact hBefore hMem
  · exact hName hMem

theorem deepestFrom_argument_le {d : String} (given : argument d ≠ "") :
    deepestFrom 1 (argument d).toList ≤ nestingDepth d := by
  have hd := toList_eq_of_argument_ne given
  have hLevel : 1 ≤ levelAfter 0 (nameChars d.toList ++ ['<']) := by simp
  rw [nestingDepth]
  generalize nameChars d.toList = name at hd hLevel
  rw [← List.singleton_append, ← List.append_assoc] at hd
  rw [hd, deepestFrom_append, deepestFrom_append _ (argument d).toList]
  have := deepestFrom_mono hLevel (argument d).toList
  omega

theorem exists_append_value (a : String) :
    ∃ before, a.toList = before ++ (keyValue a).2.toList := by
  rcases keyValue_cases a with h | h
  · exact ⟨[], by rw [h]; rfl⟩
  · exact ⟨(keyValue a).1.toList ++ [','], by rw [List.append_assoc]; exact h⟩

end Description

namespace Asks

variable {d d' : String} {v v' : Value} {depth opened : Nat}

/-- A description that asks for checks goes deeper than the number of closing brackets that can
follow it. -/
theorem opened_lt (h : Asks (argument d) v d' v')
    (hMatched : Matched depth (d.toList ++ List.replicate opened '>')) :
    opened < deepestFrom depth d.toList := by
  have hd := toList_eq_of_argument_ne h.argument_ne
  generalize nameChars d.toList = name at hd
  rw [hd] at hMatched ⊢
  exact lt_deepestFrom_of_matched hMatched

theorem matched_value (given : argument d ≠ "")
    (hMatched : Matched depth (d.toList ++ List.replicate opened '>')) :
    ∃ depth', Matched depth'
        ((keyValue (argument d)).2.toList ++ List.replicate (opened + 1) '>') ∧
      deepestFrom depth' (keyValue (argument d)).2.toList ≤ deepestFrom depth d.toList := by
  obtain ⟨before, hBefore⟩ := exists_append_value (argument d)
  have hd := toList_eq_of_argument_ne given
  generalize nameChars d.toList = name at hd
  rw [hBefore, List.append_assoc, ← List.cons_append, ← List.append_assoc] at hd
  rw [hd] at hMatched ⊢
  exact ⟨_, matched_part hMatched⟩

end Asks

namespace Checker

variable {policy : Policy} {d : String} {v : Value}

/-- `n + 1` checks inside one another suffice for a description that `opened` closing brackets can
follow, when its depth does not go beyond `n + opened`. -/
theorem checkWithin_isSome_of_matched {n opened depth : Nat}
    (hMatched : Matched depth (d.toList ++ List.replicate opened '>'))
    (hDepth : deepestFrom depth d.toList ≤ n + opened) (v : Value) :
    (({ policy } : Checker).checkWithin (n + 1) d v).isSome := by
  -- The bracket at the end of a description goes over to those that follow its value type.
  induction n generalizing d opened depth v with
  | zero =>
    refine checkWithin_isSome_of_quiet (((ofBuiltins policy).eachAsk_inspect d v).imp ?_)
    intro d' v' hAsks
    have := hAsks.opened_lt hMatched
    omega
  | succ n ih =>
    rw [checkWithin]
    refine EachAsk.run_isSome (((ofBuiltins policy).eachAsk_inspect d v).imp ?_)
    intro d' v' hAsks
    cases hAsks with
    | key => exact checkWithin_ofKey_isSome _ _
    | value _ _ given =>
      obtain ⟨depth', hMatched', hLe⟩ := Asks.matched_value given hMatched
      have hDepth' : deepestFrom depth' (keyValue (argument d)).2.toList ≤ n + (opened + 1) := by
        omega
      exact ih hMatched' hDepth' _

/-! ### The bound by depth, for small limits -/

theorem checkWithin_isSome_of_unnested (hDepth : nestingDepth d ≤ 0) (v : Value) :
    (({ policy } : Checker).checkWithin 1 d v).isSome := by
  refine checkWithin_isSome_of_quiet (((ofBuiltins policy).eachAsk_inspect d v).imp ?_)
  intro d' v' hAsks
  have hOpen : '<' ∈ d.toList := by
    rw [toList_eq_of_argument_ne hAsks.argument_ne]
    exact List.mem_append_right _ List.mem_cons_self
  have hPos := deepestFrom_pos_of_mem hOpen
  rw [nestingDepth] at hDepth
  omega

theorem close_not_mem_of_named {name : String} {b : Builtin} (hName : outerName d = .ok name)
    (hb : Builtin.named name = some b) : '>' ∉ nameChars d.toList := by
  rw [nameChars_of_outerName hName]
  exact fun hMem => absurd (Builtin.isPlain_of_named hb hMem) (by decide)

/-- In a description of depth one, behind keys that are accepted, the value type asks for
nothing. -/
theorem eachAsk_value_of_flat (hDepth : nestingDepth d ≤ 1) (given : argument d ≠ "") {k : Key}
    (hKey : (keyValue (argument d)).1 = "" ∨
      ({ policy } : Checker).check (keyValue (argument d)).1 (.ofKey k) = .accepted) (v : Value) :
    (({ policy } : Checker).inspect (keyValue (argument d)).2 v).EachAsk fun _ _ => False := by
  have hArgument := Nat.le_trans (deepestFrom_argument_le given) hDepth
  have hParts := keyValue_cases (argument d)
  generalize keyValue (argument d) = parts at hKey hParts ⊢
  generalize argument d = a at hArgument hParts
  obtain ⟨keyType, valueType⟩ := parts
  -- No bracket closes in front of the value type: a key type that accepts has a plain name, and
  -- nothing opens behind it.
  obtain ⟨before, hBefore, hNone⟩ : ∃ before,
      a.toList = before ++ valueType.toList ∧ '>' ∉ before := by
    rcases hParts with h | h
    · cases h
      exact ⟨[], rfl, List.not_mem_nil⟩
    · refine ⟨keyType.toList ++ [','], by simpa using h, ?_⟩
      suffices hClose : '>' ∉ keyType.toList by simpa using hClose
      rcases hKey with rfl | hAccepted
      · exact List.not_mem_nil
      · obtain ⟨name, b, hName, hb⟩ := named_of_accepts_key hAccepted
        have hClose := close_not_mem_of_named hName hb
        have hOpen : '<' ∉ keyType.toList := by
          rw [h, deepestFrom_append] at hArgument
          have hFlat : deepestFrom 1 ([] ++ keyType.toList) ≤ 1 := (max_le_iff.mp hArgument).1
          exact open_not_mem_of_flat hFlat List.not_mem_nil hClose
        rwa [nameChars_of_not_mem hOpen] at hClose
  refine ((eachAsk_named _ v).and ((ofBuiltins policy).eachAsk_inspect _ v)).imp ?_
  rintro d' v' ⟨⟨name, b, hName, hb⟩, hAsks⟩
  rw [hBefore] at hArgument
  refine open_not_mem_of_flat hArgument hNone (close_not_mem_of_named hName hb) ?_
  rw [toList_eq_of_argument_ne hAsks.argument_ne]
  simp

theorem run_inspectArray_isSome_of_flat (hDepth : nestingDepth d ≤ 1) (v : Value) :
    ((Builtin.array.inspect .standard (argument d) v).run
      (({ policy } : Checker).checkWithin 1)).isSome := by
  cases v with
  | array entries =>
    by_cases given : argument d = ""
    · rw [given]
      rfl
    · refine Builtin.run_inspectArray_isSome given (fun k => checkWithin_ofKey_isSome _ k) ?_
      intro k v hKey
      have hKey := hKey.imp_right (ofBuiltins policy).check_eq_of_checkWithin
      exact checkWithin_isSome_of_quiet (eachAsk_value_of_flat hDepth given hKey v)
  | _ => rfl

theorem checkWithin_isSome_of_flat (hDepth : nestingDepth d ≤ 1) (v : Value) :
    (({ policy } : Checker).checkWithin 2 d v).isSome := by
  rw [checkWithin]
  rcases inspect_cases (c := { policy }) rfl d with ⟨cause, h⟩ | ⟨name, b, -, -, h⟩ | ⟨name, h⟩
  · rw [h]
    rfl
  · rw [h, run_firstSettled_singleton]
    cases b with
    | array => exact run_inspectArray_isSome_of_flat hDepth v
    | _ => rfl
  · rw [h]
    rfl

/-! ### No bound by depth, for other limits -/

/-- A key type with a stray bracket, which takes the counter back to zero. -/
def strayKey : String := "any<>>"

/-- A description with a number of arrays inside one another, each behind a stray bracket. -/
def strayChain : Nat → String
  | 0 => "int"
  | n + 1 => "array<" ++ strayKey ++ "," ++ strayChain n ++ ">"

/-- A value with a number of arrays inside one another. -/
def nestedArray : Nat → Value
  | 0 => .integer 0
  | n + 1 => .array [(.int 0, nestedArray n)]

theorem toList_strayChain (n : Nat) : (strayChain (n + 1)).toList =
    "array".toList ++ '<' :: ((strayKey.toList ++ ',' :: (strayChain n).toList) ++ ['>']) := by
  simp [strayChain]

theorem outerName_strayChain (n : Nat) : outerName (strayChain (n + 1)) = .ok "array" := by
  have hName : nameChars (strayChain (n + 1)).toList = "array".toList := by
    rw [toList_strayChain, nameChars_append (by decide)]
  exact outerName_of_nameChars hName (by decide)

theorem argument_strayChain (n : Nat) :
    argument (strayChain (n + 1)) = strayKey ++ "," ++ strayChain n := by
  refine String.toList_inj.mp ?_
  rw [toList_argument, toList_strayChain, argumentChars_append (by decide)]
  simp

theorem keyValue_strayChain (n : Nat) :
    keyValue (argument (strayChain (n + 1))) = (strayKey, strayChain n) := by
  have hCut : cutAtComma 0 (argument (strayChain (n + 1))).toList =
      some (strayKey.toList, (strayChain n).toList) := by
    rw [argument_strayChain, String.toList_append, String.toList_append, List.append_assoc]
    exact cutAtComma_key (by decide) (by decide) _
  rw [keyValue_of_cut hCut, String.ofList_toList, String.ofList_toList]

theorem deepestFrom_strayChain (n : Nat) :
    levelAfter 0 (strayChain n).toList = 0 ∧ deepestFrom 0 (strayChain n).toList ≤ 2 := by
  induction n with
  | zero => decide
  | succ n ih =>
    have hSplit : (strayChain (n + 1)).toList =
        "array<any<>>,".toList ++ ((strayChain n).toList ++ ['>']) := by
      simp [strayChain, strayKey]
    have hLevel : levelAfter 0 "array<any<>>,".toList = 0 := by decide
    have hDeepest : deepestFrom 0 "array<any<>>,".toList = 2 := by decide
    rw [hSplit, levelAfter_append, levelAfter_append, deepestFrom_append, deepestFrom_append,
      hLevel, hDeepest, ih.1]
    exact ⟨rfl, max_le (Nat.le_refl 2) (max_le ih.2 (Nat.zero_le 2))⟩

theorem check_strayKey (hLimit : 2 ≤ policy.maxDepth) (v : Value) :
    ({ policy } : Checker).check strayKey v = .accepted := by
  have hDepth : nestingDepth strayKey ≤ policy.maxDepth := Nat.le_trans (by decide) hLimit
  have hName : outerName strayKey = .ok "any" := by decide
  rw [check_of_named hDepth hName (b := .any) rfl]
  rfl

/-- As many checks inside one another as there are arrays do not suffice. -/
theorem checkWithin_strayChain (hLimit : 2 ≤ policy.maxDepth) (n : Nat) :
    ({ policy } : Checker).checkWithin n (strayChain n) (nestedArray n) = none := by
  induction n with
  | zero => rfl
  | succ n ih =>
    have hDepth := Nat.le_trans (deepestFrom_strayChain (n + 1)).2 hLimit
    have hGiven : argument (strayChain (n + 1)) ≠ "" := by simp [argument_strayChain]
    rw [checkWithin, inspect_of_named hDepth (outerName_strayChain n) (b := .array) rfl,
      run_firstSettled_singleton, nestedArray, Builtin.inspect_array hGiven, keyValue_strayChain,
      Builtin.inspectEntries, if_neg (show ¬strayKey.isEmpty = true by decide)]
    rcases hKey : ({ policy } : Checker).checkWithin n strayKey (.ofKey (.int 0)) with _ | verdict
    · exact run_require_none hKey _ _
    · have hVerdict := (ofBuiltins policy).check_eq_of_checkWithin hKey
      rw [check_strayKey hLimit] at hVerdict
      subst hVerdict
      rw [run_require_accepted hKey]
      exact run_require_none ih _ _

/-! ### The bounds together -/

/-- The limit on the depth of descriptions bounds the checks inside one another just when it is at
most one.  Without a stray closing bracket the depth of a description bounds them, and the number of
its opening brackets always does. -/
theorem nested_checks_bounds (policy : Policy) :
    ((∀ d v, nestingDepth d ≤ policy.maxDepth →
        (({ policy } : Checker).checkWithin (policy.maxDepth + 1) d v).isSome) ↔
      policy.maxDepth ≤ 1) ∧
    (∀ d v, Matched 0 d.toList →
      (({ policy } : Checker).checkWithin (nestingDepth d + 1) d v).isSome) ∧
    (∀ d v, (({ policy } : Checker).checkWithin (d.toList.count '<' + 1) d v).isSome) := by
  refine ⟨?_, ?_, checkWithin_count_isSome policy⟩
  · constructor
    · intro hBound
      by_contra hLarge
      have hLimit : 2 ≤ policy.maxDepth := by omega
      have hDepth := Nat.le_trans (deepestFrom_strayChain (policy.maxDepth + 1)).2 hLimit
      have hSome := hBound _ (nestedArray (policy.maxDepth + 1)) hDepth
      rw [checkWithin_strayChain hLimit] at hSome
      cases hSome
    · intro hLimit d v hDepth
      obtain hZero | hOne := Nat.le_one_iff_eq_zero_or_eq_one.mp hLimit
      · rw [hZero] at hDepth ⊢
        exact checkWithin_isSome_of_unnested hDepth v
      · rw [hOne] at hDepth ⊢
        exact checkWithin_isSome_of_flat hDepth v
  · intro d v hMatched
    have hFollowed : Matched 0 (d.toList ++ List.replicate 0 '>') := by simpa using hMatched
    exact checkWithin_isSome_of_matched hFollowed (Nat.le_refl _) v

/-- Four arrays inside one another in a description of depth two: three checks do not suffice, nor
do four. -/
theorem nested_checks_beyond_limit :
    nestingDepth "array<any<>>,array<any<>>,array<any<>>,array<int>>>>" = 2 ∧
    ({ policy := { maxDepth := 2 } } : Checker).checkWithin 4
      "array<any<>>,array<any<>>,array<any<>>,array<int>>>>"
      (.list [.list [.list [.list [.string "x"]]]]) = none := by
  decide +kernel

end Checker

end Conformance
