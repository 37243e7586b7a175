import Conformance.Proofs.Brackets

/-! Generic types put together and taken apart.  A name, a key type and a value type are written as
`name<key,value>`; brackets and commas may stand in the key type and the value type in any way,
matched or not, as long as the comma between the two is the first outside brackets. -/

namespace Conformance.Description

variable {depth : Nat} {s key value : List Char}

/-- Every comma of a text that is met at a depth stands within brackets. -/
def Undivided (depth : Nat) (s : List Char) : Prop :=
  ∀ key value, s = key ++ ',' :: value → levelAfter depth key ≠ 0

/-- A text falls into the parts before and behind its first comma outside brackets. -/
structure Divided (s key value : List Char) : Prop where
  text : s = key ++ ',' :: value
  outside : levelAfter 0 key = 0
  first : Undivided 0 key

/-! ### The cut at a comma -/

/-- The cut is made outside brackets, and there is no cut to be made in front of it. -/
theorem outside_of_cutAtComma (h : cutAtComma depth s = some (key, value)) :
    levelAfter depth key = 0 ∧ cutAtComma depth key = none := by
  induction s generalizing depth key with
  | nil => cases h
  | cons c rest ih =>
    rw [cutAtComma] at h
    split at h
    · next hComma =>
      cases h
      exact ⟨hComma.2, rfl⟩
    · next hComma =>
      obtain ⟨⟨key', value'⟩, hParts, hEq⟩ := Option.map_eq_some_iff.mp h
      cases hEq
      obtain ⟨hLevel, hNone⟩ := ih hParts
      refine ⟨hLevel, ?_⟩
      rw [cutAtComma, if_neg hComma, hNone]
      rfl

theorem cutAtComma_eq_none_iff : cutAtComma depth s = none ↔ Undivided depth s := by
  constructor
  · rintro hNone key value rfl hLevel
    rw [cutAtComma_append, hLevel] at hNone
    cases hKey : cutAtComma depth key with
    | none => simp [hKey, cutAtComma] at hNone
    | some parts => simp [hKey] at hNone
  · intro h
    by_contra hSome
    obtain ⟨⟨key, value⟩, hCut⟩ := Option.ne_none_iff_exists'.mp hSome
    exact h key value (eq_of_cutAtComma hCut) (outside_of_cutAtComma hCut).1

instance : Decidable (Undivided depth s) := decidable_of_iff _ cutAtComma_eq_none_iff

theorem cutAtComma_eq_some_iff : cutAtComma 0 s = some (key, value) ↔ Divided s key value := by
  constructor
  · intro h
    obtain ⟨hLevel, hNone⟩ := outside_of_cutAtComma h
    exact ⟨eq_of_cutAtComma h, hLevel, cutAtComma_eq_none_iff.mp hNone⟩
  · rintro ⟨rfl, hLevel, hFirst⟩
    exact cutAtComma_key (cutAtComma_eq_none_iff.mpr hFirst) hLevel value

theorem Divided.not_undivided (h : Divided s key value) : ¬ Undivided 0 s :=
  fun hNone => hNone key value h.text h.outside

/-- The key and value types of a text are its parts at the first comma outside brackets; a text
without such a comma is the value type. -/
theorem keyValue_eq_iff {s key value : String} : keyValue s = (key, value) ↔
    Divided s.toList key.toList value.toList ∨ Undivided 0 s.toList ∧ key = "" ∧ value = s := by
  cases hCut : cutAtComma 0 s.toList with
  | none =>
    have hNone := cutAtComma_eq_none_iff.mp hCut
    rw [keyValue_of_no_cut hCut, Prod.mk.injEq]
    constructor
    · rintro ⟨rfl, rfl⟩
      exact .inr ⟨hNone, rfl, rfl⟩
    · rintro (hDivided | ⟨-, rfl, rfl⟩)
      · exact absurd hNone hDivided.not_undivided
      · exact ⟨rfl, rfl⟩
  | some parts =>
    obtain ⟨k, v⟩ := parts
    have hDivided := cutAtComma_eq_some_iff.mp hCut
    rw [keyValue_of_cut hCut, Prod.mk.injEq, or_iff_left fun h => hDivided.not_undivided h.1,
      ← cutAtComma_eq_some_iff, hCut, Option.some_inj, Prod.mk.injEq, ← String.toList_inj,
      ← String.toList_inj, String.toList_ofList, String.toList_ofList]

/-! ### Names with an argument -/

section Enclosed

variable {name : String}

theorem enclosed_eq (name s : String) : name ++ "<" ++ s ++ ">" =
    String.ofList (name.toList ++ '<' :: (s.toList ++ ['>'])) := by
  rw [← String.toList_inj, String.toList_ofList]
  simp

theorem outerName_enclosed (hne : name ≠ "") (hOpen : '<' ∉ name.toList) (s : String) :
    outerName (name ++ "<" ++ s ++ ">") = .ok name := by
  rw [enclosed_eq, outerName_generic hOpen fun hNil => hne (String.toList_eq_nil_iff.mp hNil),
    String.ofList_toList]

theorem argument_enclosed (hOpen : '<' ∉ name.toList) (s : String) :
    argument (name ++ "<" ++ s ++ ">") = s := by
  rw [enclosed_eq, argument_generic hOpen, String.ofList_toList]

end Enclosed

/-- Taking a generic type apart undoes putting it together.  Of `name<key,value>` the name and the
argument are found, and in the argument the two types, if the comma between them is the first
outside brackets; without such a comma the argument is the value type alone.  Any text is divided
at its first comma outside brackets, or not at all. -/
theorem keyValue_argument_composed :
    (∀ name key value : String, name ≠ "" → '<' ∉ name.toList →
      levelAfter 0 key.toList = 0 → Undivided 0 key.toList →
      outerName (name ++ "<" ++ (key ++ "," ++ value) ++ ">") = .ok name ∧
      argument (name ++ "<" ++ (key ++ "," ++ value) ++ ">") = key ++ "," ++ value ∧
      keyValue (argument (name ++ "<" ++ (key ++ "," ++ value) ++ ">")) = (key, value)) ∧
    (∀ name s : String, name ≠ "" → '<' ∉ name.toList → Undivided 0 s.toList →
      argument (name ++ "<" ++ s ++ ">") = s ∧
      keyValue (argument (name ++ "<" ++ s ++ ">")) = ("", s)) ∧
    ∀ s key value : String, keyValue s = (key, value) ↔
      Divided s.toList key.toList value.toList ∨ Undivided 0 s.toList ∧ key = "" ∧ value = s := by
  refine ⟨?_, ?_, fun _ _ _ => keyValue_eq_iff⟩
  · intro name key value hne hOpen hLevel hFirst
    have hArgument := argument_enclosed hOpen (key ++ "," ++ value)
    refine ⟨outerName_enclosed hne hOpen _, hArgument, ?_⟩
    rw [hArgument, keyValue_eq_iff]
    exact .inl ⟨by simp, hLevel, hFirst⟩
  · intro name s hne hOpen hNone
    have hArgument := argument_enclosed hOpen s
    refine ⟨hArgument, ?_⟩
    rw [hArgument, keyValue_eq_iff]
    exact .inr ⟨hNone, rfl, rfl⟩

/-- The key type may have commas within brackets and stray closing brackets, the value type may be
any text, and a name may contain a closing bracket. -/
theorem keyValue_argument_composed_stray :
    keyValue (argument ("a>" ++ "<" ++ (">m<k,v>>" ++ "," ++ "<,>,>") ++ ">")) =
      (">m<k,v>>", "<,>,>") ∧
    keyValue (argument ("a" ++ "<" ++ "m<,>" ++ ">")) = ("", "m<,>") := by
  obtain ⟨hPair, hSingle, -⟩ := keyValue_argument_composed
  have hFirst := hPair "a>" ">m<k,v>>" "<,>,>" (by decide) (by decide) (by decide) (by decide)
  exact ⟨hFirst.2.2, (hSingle "a" "m<,>" (by decide) (by decide) (by decide)).2⟩

end Conformance.Description
