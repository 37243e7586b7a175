import Conformance.Proofs.Continuation
import Conformance.Proofs.DecimalText
import Conformance.Proofs.EqualValues
import Conformance.Proofs.ValueReaders
import Mathlib.Data.List.Nodup

/-! Arguments as they are written in JSON: an object with a member for each argument, an array
within it as an object with a member for each entry, under the key as it is shown.  What is loaded
from such a text is what was written, entry by entry, as long as no key is a text that looks like an
integer. -/

namespace Conformance

open Json

/-! ### What is written -/

namespace Json

/-- A written value stands for a value without floats, objects and the like. -/
inductive Written.Writes : Written → Value → Prop where
  | null : Writes .null .null
  | bool (b : Bool) : Writes (.bool b) (.bool b)
  | integer (i : Int64) (h : IsNumber (Decimal.text i.toInt).toList) :
      Writes (.number (Decimal.text i.toInt).toList h) (.integer i)
  | string {glyphs : List Glyph} {s : String} (h : Glyph.Spell glyphs s) :
      Writes (.string glyphs) (.string s)
  | array {members : Members} {entries : List (Key × Value)}
      (keys : List.Forall₂ (fun m e => Glyph.Spell m.1 e.1.display) members entries)
      (values : List.Forall₂ (fun m e => Writes m.2 e.2) members entries) :
      Writes (.object members) (.array entries)

end Json

/-- The members of an object stand for arguments, in order. -/
structure Arguments.Writes (members : Members) (arguments : Arguments) : Prop where
  names : List.Forall₂ (fun m a => Glyph.Spell m.1 a.1) members arguments
  values : List.Forall₂ (fun m a => m.2.Writes a.2) members arguments

/-- No key within a value is a text that looks like an integer of 64 bits. -/
inductive Value.Normal : Value → Prop where
  | array {entries : List (Key × Value)} (keys : ∀ e ∈ entries, e.1.Normal)
      (values : ∀ e ∈ entries, Normal e.2) : Normal (.array entries)
  | other {v : Value} (h : ∀ entries, v ≠ .array entries) : Normal v

theorem Value.normal_array_iff {entries : List (Key × Value)} :
    Normal (.array entries) ↔ (∀ e ∈ entries, e.1.Normal) ∧ ∀ e ∈ entries, e.2.Normal := by
  constructor
  · intro h
    cases h with
    | array keys values => exact ⟨keys, values⟩
    | other h => exact absurd rfl (h entries)
  · rintro ⟨keys, values⟩
    exact .array keys values

/-! ### Objects -/

namespace Json

/-- The reader keeps what is written as a document that becomes the value. -/
def Reader.Keeps (item : Reader Document) (w : Written) (v : Value) : Prop :=
  ∃ d, item.Gives w.tokens (some d) ∧ d.toValue = v

/-- What members are read as, each by itself. -/
def Reads (item : Reader Document) (members : Members) (pairs : List (String × Document)) : Prop :=
  List.Forall₂ (fun m p => Glyph.Spell m.1 p.1 ∧ item.Gives m.2.tokens (some p.2)) members pairs

variable {item : Reader Document} {members : Members} {pairs : List (String × Document)}

theorem gathers_keep (h : Reads item members pairs) (gathered : List (String × Document)) :
    Gathers Manner.keep.string (Manner.member item .key) gathered members
      (some (pairs.reverse ++ gathered)) := by
  induction h generalizing gathered with
  | nil => exact .nil
  | @cons m p members pairs hFirst _ ih =>
    obtain ⟨hKey, hValue⟩ := hFirst
    have hSpells := keep_spells m.1
    rw [hKey] at hSpells
    rw [List.reverse_cons, List.append_assoc, List.singleton_append]
    exact .member hSpells ((hValue.afterColon _).map _) (ih _)

/-- Members with distinct names are kept as they stand. -/
theorem object_gives (h : Reads item members pairs) (hDistinct : (pairs.map Prod.fst).Nodup) :
    (Manner.keep.value .key (some item)).Gives (Written.object members).tokens
      (some (.object pairs)) := by
  have hGives := Manner.gives_object (gathers_keep h [])
  have hObject : Manner.keep.object (pairs.reverse ++ []).reverse = .object pairs := by
    rw [List.append_nil, List.reverse_reverse]
    exact congrArg Document.object (Entries.ofPairs_of_nodup hDistinct)
  rwa [hObject] at hGives

theorem keys_toMembers (pairs : List (String × Document)) :
    (Document.toMembers pairs).map Prod.fst = pairs.map Prod.fst := by
  induction pairs with
  | nil => rfl
  | cons p pairs ih =>
    rw [Document.toMembers, List.map_cons, List.map_cons, ih]

/-- Members whose values are read as values of their own are read together. -/
theorem exists_reads {named : List (String × Value)}
    (hNames : List.Forall₂ (fun m n => Glyph.Spell m.1 n.1) members named)
    (hValues : List.Forall₂ (fun m n => item.Keeps m.2 n.2) members named) :
    ∃ pairs, Reads item members pairs ∧ Document.toMembers pairs = named := by
  induction hNames with
  | nil => exact ⟨[], .nil, rfl⟩
  | @cons m n members named hName _ ih =>
    obtain ⟨⟨d, hGives, hValue⟩, hRest⟩ := List.forall₂_cons.mp hValues
    obtain ⟨pairs, hReads, hMembers⟩ := ih hRest
    refine ⟨(n.1, d) :: pairs, .cons ⟨hName, hGives⟩ hReads, ?_⟩
    rw [Document.toMembers, hMembers, hValue]

/-- An object whose members stand for named values is kept as these. -/
theorem exists_object_gives {named : List (String × Value)}
    (hNames : List.Forall₂ (fun m n => Glyph.Spell m.1 n.1) members named)
    (hValues : List.Forall₂ (fun m n => item.Keeps m.2 n.2) members named)
    (hDistinct : (named.map Prod.fst).Nodup) :
    ∃ pairs, (Manner.keep.value .key (some item)).Gives (Written.object members).tokens
      (some (.object pairs)) ∧ Document.toMembers pairs = named := by
  obtain ⟨pairs, hReads, rfl⟩ := exists_reads hNames hValues
  rw [keys_toMembers] at hDistinct
  exact ⟨pairs, object_gives hReads hDistinct, rfl⟩

end Json

/-! ### Arrays -/

namespace Value

variable {entries : List (Key × Value)}

/-- The entries under the texts of their keys. -/
def shown (entries : List (Key × Value)) : List (String × Value) :=
  entries.map fun e => (e.1.display, e.2)

theorem distinct_shown (hDistinct : (entries.map Prod.fst).Nodup)
    (hNormal : ∀ e ∈ entries, e.1.Normal) : ((shown entries).map Prod.fst).Nodup := by
  have hShown : (shown entries).map Prod.fst = (entries.map Prod.fst).map Key.display := by
    simp [shown]
  rw [hShown]
  refine List.Nodup.map_on (fun k hk k' hk' hEq => ?_) hDistinct
  obtain ⟨e, he, rfl⟩ := List.mem_map.mp hk
  obtain ⟨e', he', rfl⟩ := List.mem_map.mp hk'
  rw [← Key.normal_iff.mp (hNormal e he), ← Key.normal_iff.mp (hNormal e' he'), hEq]

/-- Naming the keys of an array by their texts gives the array. -/
theorem map_shown (hDistinct : (entries.map Prod.fst).Nodup)
    (hNormal : ∀ e ∈ entries, e.1.Normal) : map (shown entries) = .array entries := by
  have hEntries : (shown entries).map (fun m => (Key.ofText m.1, m.2)) = entries := by
    rw [shown, List.map_map]
    refine (List.map_congr_left fun e he => ?_).trans (List.map_id entries)
    show (Key.ofText e.1.display, e.2) = e
    rw [Key.normal_iff.mp (hNormal e he)]
  rw [map, hEntries, Entries.ofPairs_of_nodup hDistinct]

end Value

namespace Json

/-- What stands for values is read member by member when each of it is read. -/
theorem keeps_members {item : Reader Document} {members : Members} {α : Type}
    {entries : List (α × Value)}
    (hValues : List.Forall₂ (fun m e => m.2.Writes e.2) members entries)
    (h : ∀ m ∈ members, ∀ e ∈ entries, m.2.Writes e.2 → item.Keeps m.2 e.2) :
    List.Forall₂ (fun m e => item.Keeps m.2 e.2) members entries := by
  rw [List.forall₂_iff_zip] at hValues ⊢
  refine ⟨hValues.1, fun {m e} hMem => ?_⟩
  obtain ⟨hMember, hEntry⟩ := List.of_mem_zip hMem
  exact h m hMember e hEntry (hValues.2 hMem)

theorem keeps_scalar {w : Written} {v : Value} (h : w.Writes v) (hDepth : w.depth = 0)
    (item? : Option (Reader Document)) :
    (Manner.keep.value .key item?).Keeps w v := by
  cases h with
  | null => exact ⟨.null, Manner.gives_null, rfl⟩
  | bool b => exact ⟨.bool b, Manner.gives_bool b, rfl⟩
  | integer i h =>
    refine ⟨.integer i.toInt, Manner.gives_number h fun _ => Numeral.read_text i, ?_⟩
    rw [Document.toValue, int64?_toInt]
  | @string glyphs s h =>
    have hSpells := keep_spells glyphs
    rw [h] at hSpells
    exact ⟨.string s, Manner.gives_string hSpells, rfl⟩
  | array keys values => cases hDepth

/-- What stands for a value is kept as a document that becomes the value. -/
theorem keeps_of_writes {w : Written} {v : Value} (h : w.Writes v) (hKeyed : v.Keyed)
    (hNormal : v.Normal) {depth : Nat} (hDepth : w.depth ≤ depth) :
    (Manner.keep.valueWithin .key depth).Keeps w v := by
  -- By induction on the budget, which the brackets of an array lower for its entries.
  induction depth generalizing w v with
  | zero => exact keeps_scalar h (Nat.le_zero.mp hDepth) none
  | succ depth ih =>
    have hWrites := h
    cases h with
    | @array members entries keys values =>
      obtain ⟨hDistinct, hKeyedValues⟩ := Value.keyed_array_iff.mp hKeyed
      obtain ⟨hNormalKeys, hNormalValues⟩ := Value.normal_array_iff.mp hNormal
      have hDocuments := keeps_members values fun m hm e he hWrites =>
        ih hWrites (hKeyedValues e he) (hNormalValues e he)
          (Nat.le_trans (Written.depth_of_mem_members hm) (Nat.le_of_succ_le_succ hDepth))
      obtain ⟨pairs, hGives, hMembers⟩ := exists_object_gives
        (List.forall₂_map_right_iff.mpr keys) (List.forall₂_map_right_iff.mpr hDocuments)
        (Value.distinct_shown hDistinct hNormalKeys)
      refine ⟨.object pairs, hGives, ?_⟩
      rw [Document.toValue, hMembers]
      exact Value.map_shown hDistinct hNormalKeys
    | _ => exact keeps_scalar hWrites rfl _

end Json

/-! ### Loading -/

/-- An object that stands for arguments is read as members that become them. -/
theorem Arguments.Writes.exists_gives {members : Members} {arguments : Arguments}
    (h : Arguments.Writes members arguments) (hDistinct : (arguments.map Prod.fst).Nodup)
    (hKeyed : ∀ a ∈ arguments, a.2.Keyed) (hNormal : ∀ a ∈ arguments, a.2.Normal)
    (hDepth : (Written.object members).depth ≤ greatestDepth) :
    ∃ pairs, Document.reader.Gives (Written.object members).tokens (some (.object pairs)) ∧
      Document.toMembers pairs = arguments := by
  have hDocuments := keeps_members h.values fun m hm a ha hValue =>
    keeps_of_writes hValue (hKeyed a ha) (hNormal a ha)
      (Nat.le_trans (Written.depth_of_mem_members hm) (Nat.le_of_succ_le_succ hDepth))
  exact exists_object_gives h.names hDocuments hDistinct

/-- Arguments of null, truth values, integers, texts and arrays are loaded from every text that
writes them, in any layout and with any spelling of the texts, as far as the brackets are not more
than can be read: the same arguments, each array with its entries in order. -/
theorem Arguments.load_written_members {members : Members} {arguments : Arguments} {text : String}
    (hWrites : Arguments.Writes members arguments)
    (hDistinct : (arguments.map Prod.fst).Nodup)
    (hKeyed : ∀ a ∈ arguments, a.2.Keyed) (hNormal : ∀ a ∈ arguments, a.2.Normal)
    (hDepth : (Written.object members).depth ≤ greatestDepth)
    (hText : Laid (Written.object members).tokens text.toList) :
    Arguments.load text = .ok arguments := by
  obtain ⟨pairs, hGives, hMembers⟩ := hWrites.exists_gives hDistinct hKeyed hNormal hDepth
  obtain ⟨rest, hRead⟩ := hGives.exists_read hText
  exact Arguments.load_eq_ok_iff.mpr ⟨pairs, rest, hRead, hMembers⟩

theorem Arguments.load_written_members_nested :
    Arguments.load ("\x7b\"t\\u00E9\":\x7b\"-3\":\"\\\"\\n\" ,\"03\":" ++
        "\x7b\"-0\":-9223372036854775808\x7d,\"0\":null\x7d,\"7\" : true\x7d") =
      .ok [("té", .array [(.int (-3), .string "\"\n"),
        (.text "03", .array [(.text "-0", .integer Int64.minValue)]), (.int 0, .null)]),
        ("7", .bool true)] := by
  let deep : Members :=
    [(Glyph.ofText "-0", .number _ (Decimal.isNumber_text Int64.minValue.toInt))]
  let table : Members := [(Glyph.ofText "-3", .string [.short '"' '"' (by decide),
    .short 'n' '\n' (by decide)]), (Glyph.ofText "03", .object deep), (Glyph.ofText "0", .null)]
  let members : Members := [([.plain 't' (by decide), .unit ⟨0, false⟩ ⟨0, false⟩ ⟨14, true⟩
    ⟨9, false⟩], .object table), (Glyph.ofText "7", .bool true)]
  let least : Value := .array [(.text "-0", .integer Int64.minValue)]
  let value : Value := .array [(.int (-3), .string "\"\n"), (.text "03", least), (.int 0, .null)]
  have hDeep : (Written.object deep).Writes least :=
    .array (.cons (Glyph.spell_ofText _) .nil) (.cons (.integer _ _) .nil)
  have hTable : (Written.object table).Writes value :=
    .array
      (.cons (by decide +kernel) (.cons (Glyph.spell_ofText _) (.cons (by decide +kernel) .nil)))
      (.cons (.string (by decide +kernel)) (.cons hDeep (.cons .null .nil)))
  have hWrites : Arguments.Writes members [("té", value), ("7", .bool true)] :=
    ⟨.cons (by decide +kernel) (.cons (by decide +kernel) .nil),
      .cons hTable (.cons (.bool true) .nil)⟩
  have hLeast : least.Keyed ∧ least.Normal :=
    ⟨.array (by decide) (List.forall_mem_singleton.mpr (.other nofun)),
      .array (List.forall_mem_singleton.mpr (Key.normal_iff.mpr (by decide +kernel)))
        (List.forall_mem_singleton.mpr (.other nofun))⟩
  have hKeyed : value.Keyed := by
    refine .array (by decide) ?_
    simp only [List.forall_mem_cons]
    exact ⟨.other nofun, hLeast.1, .other nofun, nofun⟩
  have hNormal : value.Normal := by
    refine .array ?_ ?_
    · simp only [List.forall_mem_cons]
      exact ⟨trivial, Key.normal_iff.mpr (by decide +kernel), trivial, nofun⟩
    · simp only [List.forall_mem_cons]
      exact ⟨.other nofun, hLeast.2, .other nofun, nofun⟩
  refine Arguments.load_written_members hWrites (by decide) ?_ ?_ (by decide) (by decide +kernel)
  · simp only [List.forall_mem_cons]
    exact ⟨hKeyed, .other nofun, nofun⟩
  · simp only [List.forall_mem_cons]
    exact ⟨hNormal, .other nofun, nofun⟩

end Conformance
