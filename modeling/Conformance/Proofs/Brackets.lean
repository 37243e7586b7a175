import Conformance.Description.Generic
import Mathlib.Data.List.Infix
import Mathlib.Data.List.TakeWhile
import Mathlib.Order.MinMax

/-! The bracket depth along a text, and generic types taken apart.  The depth counter never goes
below zero, so a text met at a greater depth never measures less: a part of a description is at
most as deep as the whole. -/

namespace Conformance.Description

/-- The bracket depth behind a text that is met at a depth. -/
def levelAfter (depth : Nat) (s : List Char) : Nat := s.foldl level depth

@[simp] theorem levelAfter_nil (depth : Nat) : levelAfter depth [] = depth := rfl

@[simp] theorem levelAfter_cons (depth : Nat) (c : Char) (s : List Char) :
    levelAfter depth (c :: s) = levelAfter (level depth c) s := rfl

@[simp] theorem levelAfter_append (depth : Nat) (s t : List Char) :
    levelAfter depth (s ++ t) = levelAfter (levelAfter depth s) t := List.foldl_append

@[simp] theorem level_open (depth : Nat) : level depth '<' = depth + 1 := rfl

@[simp] theorem level_close (depth : Nat) : level depth '>' = depth - 1 := rfl

theorem level_of_ne {c : Char} (hOpen : c ≠ '<') (hClose : c ≠ '>') (depth : Nat) :
    level depth c = depth := by
  simp [level, hOpen, hClose]

@[simp] theorem level_comma (depth : Nat) : level depth ',' = depth :=
  level_of_ne (by decide) (by decide) depth

theorem level_mono {d e : Nat} (h : d ≤ e) (c : Char) : level d c ≤ level e c := by
  unfold level
  split
  · omega
  · split <;> omega

theorem deepestFrom_append (depth : Nat) (s t : List Char) :
    deepestFrom depth (s ++ t) =
      max (deepestFrom depth s) (deepestFrom (levelAfter depth s) t) := by
  induction s generalizing depth with
  | nil => simp [deepestFrom]
  | cons c rest ih =>
    rw [List.cons_append, deepestFrom, deepestFrom, ih, levelAfter_cons, max_assoc]

theorem deepestFrom_mono {d e : Nat} (h : d ≤ e) (s : List Char) :
    deepestFrom d s ≤ deepestFrom e s := by
  induction s generalizing d e with
  | nil => exact Nat.le_refl _
  | cons c rest ih => exact max_le_max (level_mono h c) (ih (level_mono h c))

theorem levelAfter_le_deepestFrom (depth : Nat) {s : List Char} (h : s ≠ []) :
    levelAfter depth s ≤ deepestFrom depth s := by
  induction s generalizing depth with
  | nil => exact absurd rfl h
  | cons c rest ih =>
    rw [levelAfter_cons, deepestFrom]
    by_cases hRest : rest = []
    · subst hRest
      exact le_max_left _ _
    · exact le_trans (ih _ hRest) (le_max_right _ _)

theorem deepestFrom_le_of_open_not_mem {s : List Char} (h : '<' ∉ s) (depth : Nat) :
    deepestFrom depth s ≤ depth := by
  induction s generalizing depth with
  | nil => exact Nat.zero_le _
  | cons c rest ih =>
    rw [List.mem_cons, not_or] at h
    have hLevel : level depth c ≤ depth := by
      unfold level
      rw [if_neg (Ne.symm h.1)]
      split <;> omega
    rw [deepestFrom]
    exact max_le hLevel (le_trans (ih h.2 _) hLevel)

theorem deepestFrom_pos_of_mem {s : List Char} (h : '<' ∈ s) : 0 < deepestFrom 0 s := by
  obtain ⟨before, after, rfl, -⟩ := List.eq_append_cons_of_mem h
  rw [deepestFrom_append, deepestFrom, level_open]
  omega

/-- A part of a text is at most as deep as the text. -/
theorem deepestFrom_le_of_infix {s t : List Char} (h : s <:+: t) :
    deepestFrom 0 s ≤ deepestFrom 0 t := by
  obtain ⟨before, after, rfl⟩ := h
  rw [List.append_assoc, deepestFrom_append, deepestFrom_append]
  have hs := deepestFrom_mono (Nat.zero_le (levelAfter 0 before)) s
  omega

/-! ### Texts without brackets -/

/-- A text without brackets. -/
def Unbracketed (s : List Char) : Prop := ∀ c ∈ s, c ≠ '<' ∧ c ≠ '>'

theorem Unbracketed.tail {c : Char} {s : List Char} (h : Unbracketed (c :: s)) : Unbracketed s :=
  fun d hd => h d (List.mem_cons_of_mem c hd)

theorem Unbracketed.levelAfter {s : List Char} (h : Unbracketed s) (depth : Nat) :
    levelAfter depth s = depth := by
  induction s with
  | nil => rfl
  | cons c rest ih =>
    obtain ⟨hOpen, hClose⟩ := h c List.mem_cons_self
    rw [levelAfter_cons, level_of_ne hOpen hClose, ih h.tail]

theorem Unbracketed.deepestFrom_le {s : List Char} (h : Unbracketed s) (depth : Nat) :
    deepestFrom depth s ≤ depth :=
  deepestFrom_le_of_open_not_mem (fun hMem => (h '<' hMem).1 rfl) depth

/-! ### The cut at the first comma outside brackets -/

/-- A text with a first comma outside brackets is cut there, whatever follows; without one, the
cut is made in what follows. -/
theorem cutAtComma_append (depth : Nat) (s t : List Char) :
    cutAtComma depth (s ++ t) =
      match cutAtComma depth s with
      | some (key, value) => some (key, value ++ t)
      | none => (cutAtComma (levelAfter depth s) t).map fun (key, value) => (s ++ key, value) := by
  induction s generalizing depth with
  | nil => simp [cutAtComma]
  | cons c rest ih =>
    rw [List.cons_append, cutAtComma, cutAtComma]
    split
    · rfl
    · rw [ih, levelAfter_cons]
      cases cutAtComma (level depth c) rest with
      | some parts => rfl
      | none => cases cutAtComma (levelAfter (level depth c) rest) t <;> rfl

theorem cutAtComma_key {depth : Nat} {key : List Char} (hNone : cutAtComma depth key = none)
    (hLevel : levelAfter depth key = 0) (value : List Char) :
    cutAtComma depth (key ++ ',' :: value) = some (key, value) := by
  rw [cutAtComma_append, hNone, hLevel]
  simp [cutAtComma]

theorem eq_of_cutAtComma {depth : Nat} {s key value : List Char}
    (h : cutAtComma depth s = some (key, value)) : s = key ++ ',' :: value := by
  induction s generalizing depth key value with
  | nil => simp [cutAtComma] at h
  | cons c rest ih =>
    rw [cutAtComma] at h
    split at h
    · next hComma =>
      cases h
      rw [hComma.1]
      rfl
    · obtain ⟨parts, hParts, hEq⟩ := Option.map_eq_some_iff.mp h
      cases hEq
      rw [List.cons_append, ← ih hParts]

theorem cutAtComma_of_not_mem {s : List Char} (h : ',' ∉ s) (depth : Nat) :
    cutAtComma depth s = none := by
  induction s generalizing depth with
  | nil => rfl
  | cons c rest ih =>
    have hc : ¬(c = ',' ∧ depth = 0) := fun hComma => h (hComma.1 ▸ List.mem_cons_self)
    rw [cutAtComma, if_neg hc, ih fun hRest => h (List.mem_cons_of_mem c hRest)]
    rfl

/-! ### The name and the argument -/

theorem forall_ne_of_not_mem {c : Char} {s : List Char} (h : c ∉ s) :
    ∀ d ∈ s, decide (d ≠ c) = true := by
  intro d hd
  exact decide_eq_true fun hEq => h (hEq ▸ hd)

theorem takeWhile_ne_append {c : Char} {s : List Char} (h : c ∉ s) (t : List Char) :
    (s ++ c :: t).takeWhile (· ≠ c) = s := by
  rw [List.takeWhile_append_of_pos (forall_ne_of_not_mem h)]
  simp

theorem dropWhile_ne_append {c : Char} {s : List Char} (h : c ∉ s) (t : List Char) :
    (s ++ c :: t).dropWhile (· ≠ c) = c :: t := by
  rw [List.dropWhile_append_of_pos (forall_ne_of_not_mem h)]
  simp

theorem takeWhile_ne_of_not_mem {c : Char} {s : List Char} (h : c ∉ s) :
    s.takeWhile (· ≠ c) = s :=
  List.takeWhile_eq_self_iff.mpr (forall_ne_of_not_mem h)

theorem nameChars_append {name : List Char} (h : '<' ∉ name) (s : List Char) :
    nameChars (name ++ '<' :: s) = name := takeWhile_ne_append h s

theorem nameChars_of_not_mem {s : List Char} (h : '<' ∉ s) : nameChars s = s :=
  takeWhile_ne_of_not_mem h

theorem argumentChars_append {name : List Char} (h : '<' ∉ name) (body : List Char) :
    argumentChars (name ++ '<' :: (body ++ ['>'])) = body := by
  rw [argumentChars, dropWhile_ne_append h]
  simp

theorem argumentChars_of_not_mem {s : List Char} (h : '>' ∉ s) : argumentChars s = [] := by
  unfold argumentChars
  split
  · next c body hBody =>
    rw [if_neg]
    intro hLast
    have hMem : '>' ∈ s.dropWhile (· ≠ '<') := by
      rw [hBody]
      exact List.mem_cons_of_mem c (List.mem_of_getLast? hLast)
    exact h ((List.dropWhile_sublist _).mem hMem)
  · rfl

theorem argumentChars_of_open_not_mem {s : List Char} (h : '<' ∉ s) : argumentChars s = [] := by
  have hDrop : s.dropWhile (· ≠ '<') = [] := List.dropWhile_eq_nil_iff.mpr (forall_ne_of_not_mem h)
  rw [argumentChars, hDrop]

/-- An argument stands between the name with its bracket and the bracket at the end. -/
theorem eq_of_argumentChars_ne_nil {s : List Char} (h : argumentChars s ≠ []) :
    s = nameChars s ++ '<' :: (argumentChars s ++ ['>']) := by
  have hs := List.takeWhile_append_dropWhile (p := (· ≠ '<')) (l := s)
  unfold argumentChars at h ⊢
  split at h
  · next c body hBody =>
    split at h
    · next hLast =>
      have hc : c = '<' := by
        have := List.head?_dropWhile_not (· ≠ '<') s
        rw [hBody] at this
        simpa using this
      subst hc
      rw [if_pos hLast, List.dropLast_append_getLast? '>' hLast, nameChars]
      rw [hBody] at hs
      exact hs.symm
    · exact absurd rfl h
  · exact absurd rfl h

/-! ### Descriptions -/

theorem outerName_of_nameChars {d : String} {name : List Char} (h : nameChars d.toList = name)
    (hName : name ≠ []) : outerName d = .ok (String.ofList name) := by
  subst h
  unfold outerName
  split
  · next hNil => exact absurd hNil hName
  · rfl

theorem nameChars_of_outerName {d name : String} (h : outerName d = .ok name) :
    nameChars d.toList = name.toList := by
  unfold outerName at h
  split at h
  · cases h
  · cases h
    exact String.toList_ofList.symm

theorem eq_nameChars_append {s : List Char} (h : '<' ∈ s) :
    ∃ t, s = nameChars s ++ '<' :: t := by
  obtain ⟨name, t, rfl, hName⟩ := List.eq_append_cons_of_mem h
  exact ⟨t, by rw [nameChars_append hName]⟩

theorem argument_of_not_mem {d : String} (h : '>' ∉ d.toList) : argument d = "" := by
  rw [argument, argumentChars_of_not_mem h]

theorem toList_argument (d : String) : (argument d).toList = argumentChars d.toList := by
  rw [argument, String.toList_ofList]

theorem toList_eq_of_argument_ne {d : String} (h : argument d ≠ "") :
    d.toList = nameChars d.toList ++ '<' :: ((argument d).toList ++ ['>']) := by
  rw [toList_argument]
  refine eq_of_argumentChars_ne_nil fun hNil => h ?_
  rw [argument, hNil]

theorem length_le_of_infix {part whole : String} (h : part.toList <:+: whole.toList) :
    part.length ≤ whole.length := by
  simpa only [String.length_toList] using h.length_le

theorem length_argument_lt {d : String} (h : argument d ≠ "") :
    (argument d).length < d.length := by
  have hWhole := congrArg List.length (toList_eq_of_argument_ne h)
  simp only [List.length_append, List.length_cons, String.length_toList] at hWhole
  omega

theorem outerName_generic {name : List Char} (hOpen : '<' ∉ name) (hne : name ≠ [])
    (inner : List Char) :
    outerName (String.ofList (name ++ '<' :: inner)) = .ok (String.ofList name) := by
  have hName : nameChars (String.ofList (name ++ '<' :: inner)).toList = name := by
    rw [String.toList_ofList, nameChars_append hOpen]
  exact outerName_of_nameChars hName hne

theorem argument_generic {name : List Char} (hOpen : '<' ∉ name) (inner : List Char) :
    argument (String.ofList (name ++ '<' :: (inner ++ ['>']))) = String.ofList inner := by
  rw [argument, String.toList_ofList, argumentChars_append hOpen]

theorem keyValue_of_cut {a : String} {key value : List Char}
    (h : cutAtComma 0 a.toList = some (key, value)) :
    keyValue a = (String.ofList key, String.ofList value) := by
  rw [keyValue, h]

theorem keyValue_of_no_cut {a : String} (h : cutAtComma 0 a.toList = none) :
    keyValue a = ("", a) := by
  rw [keyValue, h]

/-- An argument is its value type, or its key type, a comma and its value type. -/
theorem keyValue_cases (a : String) :
    keyValue a = ("", a) ∨
      a.toList = (keyValue a).1.toList ++ ',' :: (keyValue a).2.toList := by
  cases hCut : cutAtComma 0 a.toList with
  | none => exact .inl (keyValue_of_no_cut hCut)
  | some parts =>
    obtain ⟨key, value⟩ := parts
    rw [keyValue_of_cut hCut, String.toList_ofList, String.toList_ofList]
    exact .inr (eq_of_cutAtComma hCut)

theorem keyValue_infix (a : String) :
    (keyValue a).1.toList <:+: a.toList ∧ (keyValue a).2.toList <:+: a.toList := by
  rcases keyValue_cases a with h | h
  · rw [h]
    exact ⟨List.nil_infix, List.infix_rfl⟩
  · rw [h]
    exact ⟨(List.prefix_append _ _).isInfix,
      ((List.suffix_cons ',' _).trans (List.suffix_append _ _)).isInfix⟩

end Conformance.Description
