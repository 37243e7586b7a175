import Conformance.Proofs.Dispatch
import Conformance.ValueType.Sequence

/-! Lists among the types.  The type of lists writes the description of the array type with the same
argument, asks for the check against it and then looks at the keys.  That description is longer than
the one it came from, but the array type asks for parts of its argument only; so a check against a
tree of types comes to an end, with at most two checks for each level of brackets.  It decides
whether a value conforms to the tree, where lists are arrays with the keys 0, 1, 2 and so on. -/

namespace Conformance

open Description Verdict

/-! ### Keys in sequence -/

/-- The keys of entries are, in the order in which they stand, the integers 0, 1, 2 and so on. -/
def InSequence (entries : List (Key × Value)) : Prop :=
  ∀ n (h : n < entries.length), entries[n].1 = .int (Int64.ofNat n)

instance (entries : List (Key × Value)) : Decidable (InSequence entries) :=
  inferInstanceAs (Decidable (∀ n (h : n < entries.length), entries[n].1 = .int (Int64.ofNat n)))

namespace ValueType

variable {entries : List (Key × Value)}

theorem firstOutOfSequence_eq_none_iff (position : Nat) :
    firstOutOfSequence position entries = none ↔
      ∀ n (h : n < entries.length), entries[n].1 = .int (Int64.ofNat (position + n)) := by
  induction entries generalizing position with
  | nil => simp [firstOutOfSequence]
  | cons e rest ih =>
    rw [firstOutOfSequence]
    split
    · next hFirst =>
      rw [ih]
      constructor
      · intro h n hn
        cases n with
        | zero => exact hFirst
        | succ n =>
          rw [show position + (n + 1) = position + 1 + n by omega]
          exact h n (by simpa using hn)
      · intro h n hn
        rw [show position + 1 + n = position + (n + 1) by omega]
        exact h (n + 1) (by simpa using hn)
    · next hFirst =>
      apply iff_of_false
      · simp
      · intro h
        exact hFirst (h 0 (by simp))

theorem decides_judgeSequence (v : Value) :
    (judgeSequence v).Decides (∀ entries, v = .array entries → InSequence entries) := by
  cases v with
  | array entries =>
    have hNone : firstOutOfSequence 0 entries = none ↔ InSequence entries := by
      rw [firstOutOfSequence_eq_none_iff]
      simp only [Nat.zero_add, InSequence]
    rw [judgeSequence]
    split
    · next position key hSome =>
      refine .mismatch _ fun h => ?_
      rw [hNone.mpr (h entries rfl)] at hSome
      cases hSome
    · next hEnd =>
      refine .accepted fun others hEq => ?_
      cases hEq
      exact hNone.mp hEnd
  | _ => exact .accepted (by simp)

end ValueType

/-! ### Values that conform -/

/-- The name of the type of lists. -/
def HeadName.list : HeadName := ⟨⟨"list", by decide, by decide⟩, by decide⟩

/-- The values that conform to the type of a name with an argument, where `list` names lists. -/
def AdmitsUnder (name : String) (K V : Value → Prop) (v : Value) : Prop :=
  if name = "list" then
    ∃ entries, v = .array entries ∧ InSequence entries ∧ ∀ e ∈ entries, K (.ofKey e.1) ∧ V e.2
  else Builtin.AdmitsParts name K V v

namespace TypeTree

/-- The values that conform to a type, where `list` names lists. -/
def AdmitsWithLists : TypeTree → Value → Prop
  | bare name, v =>
    if name.text = "list" then ∃ entries, v = .array entries ∧ InSequence entries
    else (bare name).Admits v
  | generic name value, v => AdmitsUnder name.text (fun _ => True) value.AdmitsWithLists v
  | keyed name key value, v => AdmitsUnder name.text key.AdmitsWithLists value.AdmitsWithLists v
  | resource kind more, v => (resource kind more).Admits v

/-- The array type with the argument of a type. -/
def asArray : TypeTree → TypeTree
  | bare _ => bare HeadName.array.toPlainName
  | generic _ value => generic .array value
  | keyed _ key value => keyed .array key value
  | resource kind more => resource kind more

/-- A bound for the checks inside the check against a type: two for each level of brackets, and one
more for a list. -/
def checks (t : TypeTree) : Nat := 2 * t.height + if t.head.text = "list" then 1 else 0

/-! ### What is asked for -/

variable {t s : TypeTree}

theorem arrayDescription_print (h : t.head.text = "list") :
    ValueType.arrayDescription (argument t.print) = t.asArray.print := by
  rw [argument_print, ValueType.arrayDescription]
  cases t with
  | bare name => rfl
  | generic name value =>
    have hGiven : value.print.isEmpty = false := by simp [value.print_ne_empty]
    simp [printArgument, hGiven, asArray, print, HeadName.array, toString]
  | keyed name key value =>
    simp [printArgument, asArray, print, HeadName.array, toString, String.append_assoc]
  | resource kind more => exact absurd h (by simp [head, PlainName.resource])

theorem asArray_printArgument (t : TypeTree) : t.asArray.printArgument = t.printArgument := by
  cases t <;> rfl

theorem asArray_height (t : TypeTree) : t.asArray.height = t.height := by
  cases t <;> rfl

theorem asArray_head (h : t.head.text = "list") :
    t.asArray.head = HeadName.array.toPlainName := by
  cases t with
  | resource kind more => exact absurd h (by simp [head, PlainName.resource])
  | _ => rfl

theorem checks_asArray (h : t.head.text = "list") : t.asArray.checks < t.checks := by
  cases t with
  | resource kind more => exact absurd h (by simp [head, PlainName.resource])
  | _ => simp_all [checks, asArray, head, height, HeadName.array]

theorem checks_lt (h : s.height < t.height) : s.checks < t.checks := by
  unfold checks
  split <;> omega

theorem height_lt_length (t : TypeTree) : 2 * t.height < t.print.length := by
  induction t with
  | bare name =>
    have hName := List.length_pos_iff.mpr name.toList_ne_nil
    rwa [String.length_toList] at hName
  | generic name value ih =>
    simp only [height, print, String.length_append]
    have : "<".length = 1 ∧ ">".length = 1 := by decide
    omega
  | keyed name key value ihKey ihValue =>
    simp only [height, print, String.length_append]
    have : "<".length = 1 ∧ ">".length = 1 := by decide
    omega
  | resource kind more =>
    simp only [height, print, String.length_append]
    have : PlainName.resource.text.length = 8 := by decide
    omega

/-- What the standard grammar asks for under a printed type, other than that of resources, is a
printed type inside. -/
theorem exists_of_asks (h : t.head.text ≠ "resource") {d : String} {v v' : Value}
    (hAsks : Asks (argument t.print) v d v') :
    ∃ s : TypeTree, d = s.print ∧ s.height < t.height := by
  cases t with
  | bare name => exact absurd (argument_print _) hAsks.argument_ne
  | generic name value =>
    cases hAsks with
    | key _ _ _ typed =>
      rw [keyValue_argument_generic] at typed
      exact absurd rfl typed
    | value =>
      rw [keyValue_argument_generic]
      exact ⟨value, rfl, Nat.lt_succ_self _⟩
  | keyed name key value =>
    cases hAsks with
    | key =>
      rw [keyValue_argument_keyed]
      exact ⟨key, rfl, Nat.lt_succ_of_le (Nat.le_max_left _ _)⟩
    | value =>
      rw [keyValue_argument_keyed]
      exact ⟨value, rfl, Nat.lt_succ_of_le (Nat.le_max_right _ _)⟩
  | resource kind more => exact absurd rfl h

end TypeTree

open TypeTree

/-- What a built-in type asks for is a printed type inside the one that it looks into. -/
theorem Builtin.eachAsk_print (b : Builtin) {t : TypeTree}
    (hb : Builtin.named t.head.text = some b) (v : Value) :
    (b.inspect .standard (argument t.print) v).EachAsk fun d _ =>
      ∃ s : TypeTree, d = s.print ∧ s.height < t.height := by
  by_cases hResource : t.head.text = "resource"
  · rw [hResource] at hb
    obtain rfl : Builtin.resource = b := Option.some.inj hb
    exact .settled _
  · exact (b.demands_inspect (argument t.print) v).eachAsk.imp fun _ _ => exists_of_asks hResource

/-! ### The checker with the type of lists -/

theorem Grammar.standard_read (d : String) : Grammar.standard.read d = d := rfl

theorem Grammar.standard_argument (d : String) :
    Grammar.standard.argument d = Description.argument d := rfl

theorem Builtin.named_array : named "array" = some .array := rfl

namespace Checker

/-- A checker of the built-in types and of lists. -/
def withListType (policy : Policy) : Checker := ({ policy } : Checker).add .list

variable {policy : Policy} {name : String} {t : TypeTree} {v : Value}

theorem find?_withListType_list : (withListType policy).catalogue.find? "list" = some [.list] := by
  refine (Catalogue.find?_addAs_self .builtins "list" .list).trans ?_
  rw [Catalogue.find?_builtins]
  rfl

theorem find?_withListType_of_ne (h : name ≠ "list") :
    (withListType policy).catalogue.find? name = Catalogue.builtins.find? name :=
  Catalogue.find?_addAs_of_ne h .list

theorem grammar_withListType : (withListType policy).grammar = .standard := rfl

theorem eachAsk_withListType (t : TypeTree) (v : Value) :
    ((withListType policy).inspect t.print v).EachAsk fun d _ =>
      ∃ s : TypeTree, d = s.print ∧ s.checks < t.checks := by
  rcases Nat.lt_or_ge policy.maxDepth (nestingDepth t.print) with hDeep | hDepth
  · rw [inspect_of_deep (c := withListType policy) hDeep]
    exact .settled _
  · have hName : (withListType policy).grammar.outerName t.print = .ok t.head.text :=
      outerName_print t
    by_cases hList : t.head.text = "list"
    · have hTypes : (withListType policy).catalogue.find? t.head.text = some [.list] := by
        rw [hList, find?_withListType_list]
      rw [inspect_of_found hDepth hName hTypes]
      refine Inspection.EachAsk.firstSettled none (List.forall_mem_singleton.mpr ?_)
      -- What is asked for is longer than the description; it only counts for fewer checks.
      have hDescription : (withListType policy).grammar.read
          (ValueType.arrayDescription ((withListType policy).grammar.argument t.print)) =
            t.asArray.print := by
        rw [grammar_withListType, Grammar.standard_read, Grammar.standard_argument,
          arrayDescription_print hList]
      exact .require id ⟨t.asArray, hDescription, checks_asArray hList⟩ (.settled _)
    · have hFind : (withListType policy).catalogue.find? t.head.text =
          Catalogue.builtins.find? t.head.text := find?_withListType_of_ne hList
      rw [Catalogue.find?_builtins] at hFind
      cases hb : Builtin.named t.head.text with
      | none =>
        rw [inspect_of_not_found hDepth hName (by rw [hFind, hb]; rfl)]
        exact .settled _
      | some b =>
        have hTypes : (withListType policy).catalogue.find? t.head.text = some [b.toType] := by
          rw [hFind, hb]
          rfl
        rw [inspect_of_found hDepth hName hTypes]
        refine Inspection.EachAsk.firstSettled none (List.forall_mem_singleton.mpr ?_)
        refine (b.eachAsk_print hb v).imp ?_
        rintro d _ ⟨s, rfl, hLess⟩
        exact ⟨s, rfl, checks_lt hLess⟩

theorem descends_withListType : (withListType policy).Descends TypeTree.print TypeTree.checks where
  asks := eachAsk_withListType
  affordable t := by
    have hLength := t.height_lt_length
    unfold checks budget
    split <;> omega

theorem reads_withListType (h : t.height ≤ policy.maxDepth) :
    (withListType policy).Reads t.print t.head.text t.printArgument where
  depth := by rwa [nestingDepth_print]
  outerName := outerName_print t
  argument := argument_print t
  check_eq := descends_withListType.check_eq t

/-- Where the check against the array type with an argument decides what entries have to meet, the
check against the list type with that argument decides it of entries with keys in sequence. -/
theorem decides_list (h : t.height ≤ policy.maxDepth) (hList : t.head.text = "list")
    {P : List (Key × Value) → Prop}
    (hArray : ((withListType policy).check t.asArray.print v).Decides
      (∃ entries, v = .array entries ∧ P entries)) :
    ((withListType policy).check t.print v).Decides
      (∃ entries, v = .array entries ∧ InSequence entries ∧ P entries) := by
  have hType : (withListType policy).catalogue.find? t.head.text = some [.list] := by
    rw [hList, find?_withListType_list]
  rw [(reads_withListType h).check_of_sole hType]
  rw [← arrayDescription_print hList, argument_print] at hArray
  have hKeys : ((Inspection.settled (ValueType.judgeSequence v)).resolve
      (withListType policy).check).Decides
        (∀ entries, v = .array entries → InSequence entries) :=
    ValueType.decides_judgeSequence v
  refine (Inspection.decides_require hArray hKeys id).congr ?_
  constructor
  · rintro ⟨⟨entries, rfl, hEntries⟩, hSequence⟩
    exact ⟨entries, rfl, hSequence entries rfl, hEntries⟩
  · rintro ⟨entries, rfl, hSequence, hEntries⟩
    refine ⟨⟨entries, rfl, hEntries⟩, fun others hEq => ?_⟩
    cases hEq
    exact hSequence

/-- When checks of the parts of an argument decide what keys and values have to meet, the check
decides whether a value conforms to the type of a name with that argument. -/
theorem decides_under (h : t.height ≤ policy.maxDepth) (hHead : t.head.text ≠ "resource")
    (hGiven : t.printArgument ≠ "") {keyType valueType : String}
    (hParts : keyValue t.printArgument = (keyType, valueType)) {K V : Value → Prop}
    (hFree : keyType = "" → ∀ v, K v)
    (hKey : keyType ≠ "" → ∀ v, ((withListType policy).check keyType v).Decides (K v))
    (hValue : ∀ v, ((withListType policy).check valueType v).Decides (V v)) (v : Value) :
    ((withListType policy).check t.print v).Decides (AdmitsUnder t.head.text K V v) := by
  have hOther {s : TypeTree} (hs : s.height ≤ policy.maxDepth)
      (hSame : s.printArgument = t.printArgument) (hName : s.head.text ≠ "list")
      (hNamed : s.head.text ≠ "resource") :
      ((withListType policy).check s.print v).Decides (Builtin.AdmitsParts s.head.text K V v) := by
    have hReads := reads_withListType hs
    rw [hSame] at hReads
    exact hReads.decides_parts (find?_withListType_of_ne hName)
      (fun hb => hNamed (Builtin.eq_resource_of_named hb)) hGiven hParts hFree hKey hValue v
  rw [AdmitsUnder]
  split
  · next hList =>
    -- A list is an array of the same argument, which is no list any more.
    refine decides_list h hList ?_
    have hArray := hOther (s := t.asArray) (by rwa [asArray_height]) t.asArray_printArgument
    rw [asArray_head hList] at hArray
    exact hArray (by decide) (by decide)
  · next hName => exact hOther h rfl hName hHead

/-- The check against a printed type decides whether the value conforms to the type, where `list`
names lists. -/
theorem decides_withListType (t : TypeTree) (h : t.height ≤ policy.maxDepth) (v : Value) :
    ((withListType policy).check t.print v).Decides (t.AdmitsWithLists v) := by
  have hBare (name : PlainName) (hName : name.text ≠ "list") (v : Value) :
      ((withListType policy).check (bare name).print v).Decides ((bare name).Admits v) :=
    (reads_withListType (Nat.zero_le _)).decides_bare (find?_withListType_of_ne hName) v
  induction t generalizing v with
  | bare name =>
    rw [AdmitsWithLists]
    split
    · next hList =>
      have hArray := hBare HeadName.array.toPlainName (by decide) v
      refine (decides_list h hList (P := fun _ => True) (hArray.congr ?_)).congr ?_
      · simp [Admits, HeadName.array, Builtin.named_array, Builtin.Holds]
      · simp
    · next hName => exact hBare name hName v
  | generic name value ih =>
    refine decides_under h name.ne_resource ?_ value.keyValue_print (fun _ _ => trivial)
      (fun hTyped => absurd rfl hTyped) (ih (Nat.le_of_succ_le h)) v
    exact value.print_ne_empty
  | keyed name key value ihKey ihValue =>
    have hHeights : max key.height value.height + 1 ≤ policy.maxDepth := h
    refine decides_under h name.ne_resource ?_ (keyValue_print_pair key value)
      (fun hFree => absurd hFree key.print_ne_empty) (fun _ => ihKey (by omega))
      (ihValue (by omega)) v
    simp [printArgument]
  | resource kind more =>
    have hFind : (withListType policy).catalogue.find? "resource" =
        Catalogue.builtins.find? "resource" := find?_withListType_of_ne (by decide)
    have hGiven : (resource kind more).printArgument ≠ "" := fun hEmpty =>
      printKinds_ne_nil kind more (String.toList_eq_nil_iff.mpr hEmpty)
    refine ((reads_withListType h).decides_resource hFind rfl hGiven v).congr ?_
    show (∃ received id, v = .resource received id ∧
      received ∈ alternatives (printKinds kind more)) ↔ _
    rw [alternatives_printKinds]
    rfl

/-- A description of a type within the depth limit is understood, and the values that it accepts are
those that conform to the type. -/
theorem check_withListType (policy : Policy) (t : TypeTree) (h : t.height ≤ policy.maxDepth)
    (v : Value) :
    (∀ cause, (withListType policy).check t.print v ≠ .malformed cause) ∧
      ((withListType policy).check t.print v = .accepted ↔ t.AdmitsWithLists v) := by
  have hDecides := decides_withListType t h v
  exact ⟨hDecides.ne_malformed, hDecides.accepted_iff⟩

/-- Lists of arrays of lists. -/
def listsInside : TypeTree := .generic .list (.generic .array (.bare HeadName.list.toPlainName))

/-- The keys of lists have to be in sequence at every level, those of the arrays between them need
not be. -/
theorem check_withListType_between :
    (withListType {}).check "list<array<list>>" (.array [(.int 0, .array [(.text "rest", .array []),
      (.int 7, .array [(.int 0, .null), (.int 1, .null)])])]) = .accepted ∧
    ∃ cause, (withListType {}).check "list<array<list>>" (.array [(.int 0, .array [(.int 7,
      .array [(.int 1, .null), (.int 0, .null)])])]) = .mismatch cause := by
  have hRead := check_withListType {} listsInside (by decide)
  have hAdmits (v : Value) : listsInside.AdmitsWithLists v ↔
      ∃ outer, v = .array outer ∧ InSequence outer ∧ ∀ e ∈ outer,
        ∃ entries, e.2 = .array entries ∧ ∀ e ∈ entries,
          ∃ inner, e.2 = .array inner ∧ InSequence inner := by
    simp [listsInside, AdmitsWithLists, AdmitsUnder, HeadName.list, HeadName.array,
      Builtin.AdmitsParts, Builtin.named_array]
  rw [show listsInside.print = "list<array<list>>" by decide] at hRead
  constructor
  · refine (hRead _).2.mpr ((hAdmits _).mpr ?_)
    refine ⟨_, rfl, by decide, List.forall_mem_singleton.mpr ⟨_, rfl, ?_⟩⟩
    exact List.forall_mem_cons.mpr ⟨⟨_, rfl, by decide⟩,
      List.forall_mem_singleton.mpr ⟨_, rfl, by decide⟩⟩
  · have hSwapped : ¬listsInside.AdmitsWithLists (.array [(.int 0, .array [(.int 7,
        .array [(.int 1, .null), (.int 0, .null)])])]) := by
      simp only [hAdmits, Value.array.injEq, exists_eq_left', List.forall_mem_singleton]
      decide
    obtain ⟨hUnderstood, hIff⟩ := hRead (.array [(.int 0, .array [(.int 7,
      .array [(.int 1, .null), (.int 0, .null)])])])
    generalize (withListType {}).check _ _ = verdict at hUnderstood hIff
    rcases verdict with (cause | cause) | accepted
    · exact ⟨cause, rfl⟩
    · exact absurd rfl (hUnderstood cause)
    · exact absurd (hIff.mp rfl) hSwapped

end Checker

end Conformance
