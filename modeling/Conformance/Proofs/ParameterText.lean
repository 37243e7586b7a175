import Conformance.Proofs.Continuation
import Conformance.Proofs.ValueReaders

/-! Parameters as they are written in JSON: objects whose members come in any order, a name and a
type once each, a mark at most once, and members with other names as many as there are.  Such
objects in a list are loaded as the parameters they write; where one of them is malformed, the fault
points at the first that is. -/

namespace Conformance

open Json

namespace Parameter

/-- The values that are written under a name, in order. -/
def valuesOf (name : String) (members : Members) : List Written :=
  (members.filter fun m => Glyph.Spell m.1 name).map Prod.snd

/-- The members write a parameter.  A parameter that must be there may go without a mark. -/
structure Writes (members : Members) (p : Parameter) : Prop where
  readable : ∀ m ∈ members, ∃ key, Glyph.Spell m.1 key
  name : ∃ glyphs, valuesOf "name" members = [.string glyphs] ∧ Glyph.Spell glyphs p.name
  description : ∃ glyphs, valuesOf "type" members = [.string glyphs] ∧
    Glyph.Spell glyphs p.description
  optional : valuesOf "optional" members = [.bool p.optional] ∨
    valuesOf "optional" members = [] ∧ p.optional = false

/-- What is wrong with the members of an object that writes no parameter. -/
inductive Malformed (members : Members) : Prop where
  /-- A name or a type is lacking. -/
  | lacking {name : String} (hName : name ∈ ["name", "type"]) (h : valuesOf name members = [])
  /-- A member that has a meaning is written twice. -/
  | repeated {name : String} (hName : name ∈ ["name", "type", "optional"])
    (h : 2 ≤ (valuesOf name members).length)
  /-- A name or a type is not a string. -/
  | notText {name : String} (hName : name ∈ ["name", "type"]) {w : Written}
    (hValue : w ∈ valuesOf name members) (h : w.text? = none)
  /-- A mark is not a truth value. -/
  | notBool {w : Written} (hValue : w ∈ valuesOf "optional" members) (h : w.bool? = none)

/-! ### One member after another -/

/-- What a field holds after the values that are written under its name. -/
def settle {β : Type} (f : Written → Option β) (before : Option β) :
    List Written → Option (Option β)
  | [] => some before
  | w :: ws => if before.isSome then none else (f w).bind fun b => settle f (some b) ws

namespace Draft

/-- The draft with one more member, unless that is refused. -/
def take (d : Draft) (key : String) (w : Written) : Option Draft :=
  if key = "name" then (settle Written.text? d.name [w]).map fun name => { d with name }
  else if key = "type" then
    (settle Written.text? d.description [w]).map fun description => { d with description }
  else if key = "optional" then
    (settle Written.bool? d.optional [w]).map fun optional => { d with optional }
  else some d

def takeAll (d : Draft) : Members → Option Draft
  | [] => some d
  | (glyphs, w) :: rest =>
    match Glyph.string? glyphs with
    | none => none
    | some key =>
      match d.take key w with
      | none => none
      | some d => d.takeAll rest

end Draft

section Settle

variable {β : Type} {f : Written → Option β} {before : Option β} {b : β} {w : Written}
  {ws : List Written}

theorem settle_cons (before : Option β) (w : Written) (ws : List Written) :
    settle f before (w :: ws) = (settle f before [w]).bind fun b => settle f b ws := by
  cases before with
  | none => cases h : f w <;> simp [settle, h]
  | some b => rfl

theorem map_settle {γ : Type} (g : Option β → γ) (before : Option β) (w : Written) :
    (settle f before [w]).map g =
      if before.isSome then none else (f w).map fun b => g (some b) := by
  cases before with
  | none => cases h : f w <;> simp [settle, h]
  | some b => rfl

theorem settle_none_eq_none_iff : settle f none ws = some none ↔ ws = [] := by
  cases ws with
  | nil => exact iff_of_true rfl rfl
  | cons w ws =>
    cases hw : f w with
    | none => simp [settle, hw]
    | some b => cases ws <;> simp [settle, hw]

theorem settle_none_eq_some_iff :
    settle f none ws = some (some b) ↔ ∃ w, ws = [w] ∧ f w = some b := by
  cases ws with
  | nil => simp [settle]
  | cons w ws =>
    cases hw : f w with
    | none => simp [settle, hw]
    | some b' => cases ws <;> simp [settle, hw]

end Settle

/-- A member is read as the draft takes it. -/
theorem member_gives (d : Draft) (key : String) (w : Written) :
    (shape.member d key).Gives ([':'] :: w.tokens) (d.take key w) := by
  unfold Draft.take
  split
  · next hName =>
    subst hName
    have hField : shape.fields.find? (·.name = "name") = some shape.fields[0] := rfl
    rw [map_settle]
    exact Shape.member_gives_field hField
      ((Reader.string_gives w).map fun s => ({ d with name := some s } : Draft))
  · next hName =>
    split
    · next hType =>
      subst hType
      have hField : shape.fields.find? (·.name = "type") = some shape.fields[1] := rfl
      rw [map_settle]
      exact Shape.member_gives_field hField
        ((Reader.string_gives w).map fun s => ({ d with description := some s } : Draft))
    · next hType =>
      split
      · next hOptional =>
        subst hOptional
        have hField : shape.fields.find? (·.name = "optional") = some shape.fields[2] := rfl
        rw [map_settle]
        exact Shape.member_gives_field hField
          ((Reader.bool_gives w).map fun b => ({ d with optional := some b } : Draft))
      · next hOptional =>
        refine Shape.member_gives_other ?_ rfl w
        simp [shape, Ne.symm hName, Ne.symm hType, Ne.symm hOptional]

theorem gathers_takeAll (d : Draft) (members : Members) :
    Gathers Manner.keep.string shape.member d members (d.takeAll members) := by
  fun_induction Draft.takeAll d members with
  | case1 d => exact .nil
  | case2 d glyphs w rest hKey =>
    have hSpells := keep_spells glyphs
    rw [hKey] at hSpells
    exact .badKey hSpells
  | case3 d glyphs w rest key hKey hTake =>
    have hSpells := keep_spells glyphs
    have hMember := member_gives d key w
    rw [hKey] at hSpells
    rw [hTake] at hMember
    exact .refused hSpells hMember
  | case4 d glyphs w rest key hKey d' hTake ih =>
    have hSpells := keep_spells glyphs
    have hMember := member_gives d key w
    rw [hKey] at hSpells
    rw [hTake] at hMember
    exact .member hSpells hMember ih

/-! ### What the members write -/

section Members

variable {name key : String} {glyphs : List Glyph} {w : Written} {members : Members}

theorem valuesOf_cons (h : Glyph.Spell glyphs key) : valuesOf name ((glyphs, w) :: members) =
    if key = name then w :: valuesOf name members else valuesOf name members := by
  have hSpell : Glyph.Spell glyphs name ↔ key = name := by
    rw [Glyph.Spell, h, Option.some.injEq]
  unfold valuesOf
  by_cases hKey : key = name <;> simp [hSpell, hKey]

/-- Each field is settled by the values under its own name. -/
theorem takeAll_eq_some_iff {d d' : Draft} : d.takeAll members = some d' ↔
    (∀ m ∈ members, ∃ key, Glyph.Spell m.1 key) ∧
      settle Written.text? d.name (valuesOf "name" members) = some d'.name ∧
      settle Written.text? d.description (valuesOf "type" members) = some d'.description ∧
      settle Written.bool? d.optional (valuesOf "optional" members) = some d'.optional := by
  induction members generalizing d with
  | nil =>
    obtain ⟨name, description, optional⟩ := d
    obtain ⟨name', description', optional'⟩ := d'
    simp [Draft.takeAll, valuesOf, settle]
  | cons m members ih =>
    obtain ⟨glyphs, w⟩ := m
    cases hKey : Glyph.string? glyphs with
    | none =>
      refine iff_of_false (by simp [Draft.takeAll, hKey]) fun h => ?_
      obtain ⟨key, hSpell⟩ := h.1 (glyphs, w) List.mem_cons_self
      rw [Glyph.Spell, hKey] at hSpell
      cases hSpell
    | some key =>
      have hReadable : (∀ m ∈ (glyphs, w) :: members, ∃ key, Glyph.Spell m.1 key) ↔
          ∀ m ∈ members, ∃ key, Glyph.Spell m.1 key := by
        rw [List.forall_mem_cons]
        exact and_iff_right ⟨key, hKey⟩
      have hStep : d.takeAll ((glyphs, w) :: members) =
          (d.take key w).bind fun d => d.takeAll members := by
        simp only [Draft.takeAll, hKey]
        cases d.take key w <;> rfl
      -- The member settles the field that bears its key, if one does, and leaves the others alone.
      rw [hStep, hReadable, valuesOf_cons hKey, valuesOf_cons hKey, valuesOf_cons hKey, Draft.take]
      by_cases hName : key = "name"
      · subst hName
        rw [if_pos rfl, if_pos rfl, if_neg (by decide), if_neg (by decide),
          settle_cons d.name w (valuesOf "name" members)]
        cases hSettle : settle Written.text? d.name [w] with
        | none => simp
        | some b => exact ih
      by_cases hType : key = "type"
      · subst hType
        rw [if_neg (by decide), if_pos rfl, if_neg (by decide), if_pos rfl, if_neg (by decide),
          settle_cons d.description w (valuesOf "type" members)]
        cases hSettle : settle Written.text? d.description [w] with
        | none => simp
        | some b => exact ih
      by_cases hOptional : key = "optional"
      · subst hOptional
        rw [if_neg (by decide), if_neg (by decide), if_pos rfl, if_neg (by decide),
          if_neg (by decide), if_pos rfl, settle_cons d.optional w (valuesOf "optional" members)]
        cases hSettle : settle Written.bool? d.optional [w] with
        | none => simp
        | some b => exact ih
      rw [if_neg hName, if_neg hType, if_neg hOptional, if_neg hName, if_neg hType,
        if_neg hOptional]
      exact ih

theorem text?_eq_some_iff {text : String} :
    w.text? = some text ↔ ∃ glyphs, w = .string glyphs ∧ Glyph.Spell glyphs text := by
  cases w <;> simp [Written.text?, Glyph.Spell]

theorem bool?_eq_some_iff {b : Bool} : w.bool? = some b ↔ w = .bool b := by
  cases w <;> simp [Written.bool?]

/-- A field of text is settled by the one string under its name. -/
theorem settle_text_iff {ws : List Written} {text : String} :
    settle Written.text? none ws = some (some text) ↔
      ∃ glyphs, ws = [.string glyphs] ∧ Glyph.Spell glyphs text := by
  rw [settle_none_eq_some_iff]
  constructor
  · rintro ⟨w, rfl, hText⟩
    obtain ⟨glyphs, rfl, hSpell⟩ := text?_eq_some_iff.mp hText
    exact ⟨glyphs, rfl, hSpell⟩
  · rintro ⟨glyphs, rfl, hSpell⟩
    exact ⟨_, rfl, hSpell⟩

/-- A mark is settled by the one truth value under its name, or by none. -/
theorem settle_mark_iff {ws : List Written} {b : Bool} :
    (∃ mark, settle Written.bool? none ws = some mark ∧ mark.getD false = b) ↔
      ws = [.bool b] ∨ ws = [] ∧ b = false := by
  constructor
  · rintro ⟨mark, hSettle, rfl⟩
    cases mark with
    | none => exact .inr ⟨settle_none_eq_none_iff.mp hSettle, rfl⟩
    | some b =>
      obtain ⟨w, rfl, hBool⟩ := settle_none_eq_some_iff.mp hSettle
      rw [bool?_eq_some_iff.mp hBool]
      exact .inl rfl
  · rintro (rfl | ⟨rfl, rfl⟩)
    · exact ⟨some b, rfl, rfl⟩
    · exact ⟨none, rfl, rfl⟩

theorem finish_eq_ok_iff {d : Draft} {p : Parameter} : d.finish = .ok p ↔
    d.name = some p.name ∧ d.description = some p.description ∧
      d.optional.getD false = p.optional := by
  obtain ⟨name, description, optional⟩ := d
  obtain ⟨name', description', optional'⟩ := p
  cases name <;> cases description <;> simp [Draft.finish]

/-- The parameter of the members, if they write one. -/
def ofMembers? (members : Members) : Option Parameter :=
  (({} : Draft).takeAll members).bind fun d => d.finish.toOption

theorem ofMembers?_eq_some_iff {p : Parameter} : ofMembers? members = some p ↔
    ∃ d, ({} : Draft).takeAll members = some d ∧ d.finish = .ok p := by
  rw [ofMembers?, Option.bind_eq_some_iff]
  exact exists_congr fun d => and_congr_right fun _ => toOption_eq_some_iff

theorem writes_iff {p : Parameter} : Writes members p ↔ ofMembers? members = some p := by
  rw [ofMembers?_eq_some_iff]
  constructor
  · rintro ⟨hReadable, hName, hType, hOptional⟩
    obtain ⟨mark, hMark, hValue⟩ := settle_mark_iff.mpr hOptional
    exact ⟨⟨some p.name, some p.description, mark⟩, takeAll_eq_some_iff.mpr
      ⟨hReadable, settle_text_iff.mpr hName, settle_text_iff.mpr hType, hMark⟩,
      finish_eq_ok_iff.mpr ⟨rfl, rfl, hValue⟩⟩
  · rintro ⟨d, hTake, hFinish⟩
    obtain ⟨hReadable, hName, hType, hMark⟩ := takeAll_eq_some_iff.mp hTake
    obtain ⟨hNameText, hTypeText, hValue⟩ := finish_eq_ok_iff.mp hFinish
    rw [hNameText] at hName
    rw [hTypeText] at hType
    exact ⟨hReadable, settle_text_iff.mp hName, settle_text_iff.mp hType,
      settle_mark_iff.mp ⟨d.optional, hMark, hValue⟩⟩

theorem Writes.exists_text {p : Parameter} (h : Writes members p)
    (hName : name ∈ ["name", "type"]) :
    ∃ glyphs text, valuesOf name members = [.string glyphs] ∧ Glyph.Spell glyphs text := by
  simp only [List.mem_cons, List.not_mem_nil, or_false] at hName
  rcases hName with rfl | rfl
  · obtain ⟨glyphs, hValues, hSpell⟩ := h.name
    exact ⟨glyphs, p.name, hValues, hSpell⟩
  · obtain ⟨glyphs, hValues, hSpell⟩ := h.description
    exact ⟨glyphs, p.description, hValues, hSpell⟩

theorem Writes.length_le {p : Parameter} (h : Writes members p)
    (hName : name ∈ ["name", "type", "optional"]) : (valuesOf name members).length ≤ 1 := by
  by_cases hText : name ∈ ["name", "type"]
  · obtain ⟨glyphs, text, hValues, -⟩ := h.exists_text hText
    rw [hValues]
    exact Nat.le_refl 1
  · have hOptional : name = "optional" := by simp_all
    rw [hOptional]
    rcases h.optional with hMark | ⟨hNone, -⟩
    · rw [hMark]
      exact Nat.le_refl 1
    · rw [hNone]
      exact Nat.zero_le 1

theorem Malformed.not_writes (h : Malformed members) (p : Parameter) : ¬ Writes members p := by
  intro hWrites
  cases h with
  | lacking hName hNone =>
    obtain ⟨glyphs, text, hValues, -⟩ := hWrites.exists_text hName
    rw [hValues] at hNone
    cases hNone
  | repeated hName hTwice =>
    have hOnce := hWrites.length_le hName
    omega
  | notText hName hValue hText =>
    obtain ⟨glyphs, text, hValues, hSpell⟩ := hWrites.exists_text hName
    rw [hValues, List.mem_singleton] at hValue
    rw [hValue, Written.text?, hSpell] at hText
    cases hText
  | notBool hValue hBool =>
    rcases hWrites.optional with hMark | ⟨hNone, -⟩
    · rw [hMark, List.mem_singleton] at hValue
      rw [hValue] at hBool
      cases hBool
    · rw [hNone] at hValue
      cases hValue

theorem object_gives (members : Members) :
    shape.reader.Gives (Written.object members).tokens (ofMembers? members) :=
  Shape.reader_gives (gathers_takeAll {} members)

theorem objects_give {objects : List Members} {parameters : List Parameter}
    (h : List.Forall₂ Writes objects parameters) :
    GivesAll shape.reader (objects.map .object) parameters := by
  rw [GivesAll, List.forall₂_map_left_iff]
  refine h.imp fun members p hWrites => ?_
  have hGives := object_gives members
  rwa [writes_iff.mp hWrites] at hGives

theorem Malformed.refused (h : Malformed members) :
    shape.reader.Gives (Written.object members).tokens none := by
  have hNone : ofMembers? members = none :=
    Option.eq_none_iff_forall_ne_some.mpr fun p hp => h.not_writes p (writes_iff.mpr hp)
  have hGives := object_gives members
  rwa [hNone] at hGives

end Members

theorem load_of_writes {objects : List Members} {parameters : List Parameter} {text : String}
    (h : List.Forall₂ Writes objects parameters)
    (hLaid : Laid (Written.list (objects.map .object)).tokens text.toList) :
    load text = .ok parameters :=
  Reader.load_eq_ok_iff.mpr ((Reader.sequence_gives (objects_give h)).exists_read hLaid)

/-- A list of objects that write parameters is loaded as these parameters, however it is laid out.
Where an object behind such objects is malformed, the text is unreadable and the path of the fault
begins with the index of that object. -/
theorem load_written_objects :
    (∀ (objects : List Members) (parameters : List Parameter) (text : String),
      List.Forall₂ Writes objects parameters →
      Laid (Written.list (objects.map .object)).tokens text.toList →
      load text = .ok parameters) ∧
    ∀ (front : List Members) (parameters : List Parameter) (bad : Members) (back : List Written)
      (text : String),
      List.Forall₂ Writes front parameters → Malformed bad →
      Laid (Written.list (front.map .object ++ .object bad :: back)).tokens text.toList →
      ∃ fault, load text = .error (.unreadable text fault) ∧
        (∃ steps, fault.path = .index front.length :: steps) ∧
        ∃ more, pathText fault.path = s!"[{front.length}]" ++ more := by
  constructor
  · intro objects parameters text hWrites hLaid
    exact load_of_writes hWrites hLaid
  · intro front parameters bad back text hWrites hMalformed hLaid
    rw [← List.append_nil (Written.tokens _)] at hLaid
    obtain ⟨fault, hRead⟩ :=
      Reader.sequence_refused (objects_give hWrites) hMalformed.refused back hLaid
    rw [List.length_map] at hRead
    refine ⟨fault.within (.index front.length), ?_, ⟨fault.path, rfl⟩,
      ⟨pathFrom false fault.path, rfl⟩⟩
    rw [load, Reader.load, hRead]

/-- The members in any order, among others and with an escape in a name; then an object that lacks
its type behind another one. -/
theorem load_written_objects_reordered :
    let reordered := " [\x7b\"type\" :\"list<int>\",\"x\":[-0.5e+7, \x7b\"\\ud800\":[]\x7d]," ++
      "\"n\\u0061me\":\"a\"\x7d] "
    let lacking := "[\x7b\"name\":\"\",\"type\":\"int\",\"optional\":true\x7d," ++
      "\x7b\"name\":\"b\"\x7d,[]]"
    load reordered = .ok [⟨"a", "list<int>", false⟩] ∧
      ∃ fault, load lacking = .error (.unreadable lacking fault) ∧
        (∃ steps, fault.path = .index 1 :: steps) ∧
        ∃ more, pathText fault.path = s!"[{1}]" ++ more := by
  let number : Written := .number _ (IsNumber.intro (.inr rfl) (.inl rfl)
    (.inr ⟨['5'], ⟨by decide, List.forall_mem_singleton.mpr rfl⟩, rfl⟩)
    (.inr ⟨'e', by decide, ['+'], by decide, ['7'],
      ⟨by decide, List.forall_mem_singleton.mpr rfl⟩, rfl⟩))
  let half : Glyph := .unit ⟨13, false⟩ ⟨8, false⟩ ⟨0, false⟩ ⟨0, false⟩
  let reordered : Members := [(Glyph.ofText "type", .string (Glyph.ofText "list<int>")),
    (Glyph.ofText "x", .list [number, .object [([half], .list [])]]),
    ([.plain 'n' (by decide), .unit ⟨0, false⟩ ⟨0, false⟩ ⟨6, false⟩ ⟨1, false⟩,
      .plain 'm' (by decide), .plain 'e' (by decide)], .string (Glyph.ofText "a"))]
  let marked : Members := [(Glyph.ofText "name", .string []),
    (Glyph.ofText "type", .string (Glyph.ofText "int")), (Glyph.ofText "optional", .bool true)]
  let bad : Members := [(Glyph.ofText "name", .string (Glyph.ofText "b"))]
  constructor
  · exact load_written_objects.1 [reordered] _ _ (.cons (writes_iff.mpr (by decide +kernel)) .nil)
      (by decide +kernel)
  · exact load_written_objects.2 [marked] [⟨"", "int", true⟩] bad [.list []] _
      (.cons (writes_iff.mpr (by decide +kernel)) .nil)
      (.lacking (List.mem_cons_of_mem _ List.mem_cons_self) rfl) (by decide +kernel)

end Parameter

end Conformance
