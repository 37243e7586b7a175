import Conformance.Proofs.Replacement
import Conformance.Value.Equality
import Mathlib.Data.List.Perm.Subperm

/-! Equal values.  Arrays are equal as maps, whatever the order of their entries: each entry of the
one has a counterpart in the other.  As the keys of an array are distinct and the arrays are of the
same size, this holds in the other direction, too; so of two equal values either can take the place
of the other, and they are accepted alike. -/

namespace Conformance

namespace Value

/-- The keys of every array within a value are distinct, as those of a map are. -/
inductive Keyed : Value → Prop where
  | array {entries : List (Key × Value)} (distinct : (entries.map Prod.fst).Nodup)
      (values : ∀ e ∈ entries, Keyed e.2) : Keyed (.array entries)
  | other {v : Value} (h : ∀ entries, v ≠ .array entries) : Keyed v

theorem keyed_array_iff {entries : List (Key × Value)} :
    Keyed (.array entries) ↔ (entries.map Prod.fst).Nodup ∧ ∀ e ∈ entries, e.2.Keyed := by
  constructor
  · intro h
    cases h with
    | array distinct values => exact ⟨distinct, values⟩
    | other h => exact absurd rfl (h entries)
  · rintro ⟨distinct, values⟩
    exact .array distinct values

variable {entries others : List (Key × Value)}

theorem entriesIn_eq_true_iff : entriesIn entries others = true ↔
    ∀ e ∈ entries, ∃ w, Entries.get? e.1 others = some w ∧ e.2.equal w = true := by
  induction entries with
  | nil => exact iff_of_true rfl fun e he => absurd he List.not_mem_nil
  | cons e rest ih =>
    obtain ⟨key, value⟩ := e
    rw [entriesIn, Bool.and_eq_true, ih, List.forall_mem_cons]
    refine and_congr_left fun _ => ?_
    cases Entries.get? key others <;> simp

theorem equal_array_iff : (Value.array entries).equal (.array others) = true ↔
    entries.length = others.length ∧
      ∀ e ∈ entries, ∃ w, Entries.get? e.1 others = some w ∧ e.2.equal w = true := by
  rw [equal, Bool.and_eq_true, decide_eq_true_iff, entriesIn_eq_true_iff]

/-- Arrays of one size, the keys of the first distinct: when every key of the first is a key of the
second, they have the same keys. -/
theorem keys_subset_of_subset (hDistinct : (entries.map Prod.fst).Nodup)
    (hLength : entries.length = others.length)
    (h : entries.map Prod.fst ⊆ others.map Prod.fst) :
    others.map Prod.fst ⊆ entries.map Prod.fst := by
  have hPerm := (hDistinct.subperm h).perm_of_length_le (by simp [hLength])
  exact hPerm.symm.subset

theorem counterparts_of_equal (hDistinct : (entries.map Prod.fst).Nodup)
    (hOthers : (others.map Prod.fst).Nodup)
    (h : (Value.array entries).equal (.array others) = true) :
    Counterparts (fun v w => v.equal w = true) entries others := by
  obtain ⟨hLength, hEntries⟩ := equal_array_iff.mp h
  have hKeys : entries.map Prod.fst ⊆ others.map Prod.fst := by
    intro key hKey
    obtain ⟨e, he, rfl⟩ := List.mem_map.mp hKey
    obtain ⟨w, hFound, -⟩ := hEntries e he
    exact List.mem_map.mpr ⟨_, Entries.mem_of_get? hFound, rfl⟩
  intro e he
  obtain ⟨f, hf, hKey⟩ := List.mem_map.mp
    (keys_subset_of_subset hDistinct hLength hKeys (List.mem_map_of_mem he))
  obtain ⟨w, hFound, hEqual⟩ := hEntries f hf
  rw [hKey, Entries.get?_of_mem hOthers he] at hFound
  cases hFound
  exact ⟨f.2, hKey ▸ hf, hEqual⟩

/-- Two equal values are arrays, or else either can take the place of the other. -/
theorem equal_cases (R : Value → Value → Prop) {v w : Value} (h : v.equal w = true) :
    (∃ entries others, v = .array entries ∧ w = .array others) ∨
      Replaceable R v w ∧ Replaceable R w v := by
  unfold equal at h
  split at h
  · exact .inr ⟨.null, .null⟩
  · exact .inr ⟨.bool _ _, .bool _ _⟩
  · exact .inr ⟨.integer _ _, .integer _ _⟩
  · exact .inr ⟨.float _ _, .float _ _⟩
  · obtain rfl := of_decide_eq_true h
    exact .inr ⟨.string _, .string _⟩
  · next entries others => exact .inl ⟨entries, others, rfl, rfl⟩
  · obtain rfl := of_decide_eq_true h
    exact .inr ⟨.object fun _ hName => hName, .object fun _ hName => hName⟩
  · exact .inr ⟨.callable _ _, .callable _ _⟩
  · obtain ⟨rfl, -⟩ : _ = _ ∧ _ = _ := by simpa using h
    exact .inr ⟨.resource _ _ _, .resource _ _ _⟩
  · cases h

theorem replacement_equal : Replacement fun v w => v.equal w = true ∧ v.Keyed ∧ w.Keyed := by
  rintro v w ⟨hEqual, hv, hw⟩
  rcases equal_cases _ hEqual with ⟨entries, others, rfl, rfl⟩ | ⟨hReplaceable, -⟩
  · obtain ⟨hDistinct, hValues⟩ := keyed_array_iff.mp hv
    obtain ⟨hOthers, hCounterparts⟩ := keyed_array_iff.mp hw
    refine .array fun e he => ?_
    obtain ⟨u, hMem, hu⟩ := counterparts_of_equal hDistinct hOthers hEqual e he
    exact ⟨u, hMem, hu, hValues _ hMem, hCounterparts e he⟩
  · exact hReplaceable

/-- The entries of the first array look up their counterparts in the second one, so this direction
does without distinct keys. -/
theorem replacement_equal_swap : Replacement fun w v => v.equal w = true := by
  intro w v hEqual
  rcases equal_cases _ hEqual with ⟨entries, others, rfl, rfl⟩ | ⟨-, hReplaceable⟩
  · refine .array fun e he => ?_
    obtain ⟨u, hFound, hu⟩ := (equal_array_iff.mp hEqual).2 e he
    exact ⟨u, Entries.mem_of_get? hFound, hu⟩
  · exact hReplaceable

end Value

open Value

namespace Checker

/-- Equal values are accepted alike, whatever the description and however their entries are
ordered. -/
theorem check_accepted_iff_of_equal (policy : Policy) (grammar : Grammar) (d : String) {v w : Value}
    (hv : v.Keyed) (hw : w.Keyed) (h : v.equal w = true) :
    ({ policy, grammar } : Checker).check d v = .accepted ↔
      ({ policy, grammar } : Checker).check d w = .accepted := by
  constructor
  · exact check_of_replacement rfl replacement_equal ⟨h, hv, hw⟩
  · exact check_of_replacement rfl replacement_equal_swap h

/-- Two tables of numbers that differ in the order of entries at both levels and in the sign of a
zero. -/
theorem check_accepted_iff_of_equal_tables :
    ({} : Checker).check "array<string,array<float>>" (.array [(.text "none", .array []),
      (.text "some", .array [(.int 1, .float (.infinity true)), (.int 0, .float (.zero true))])]) =
        .accepted := by
  have hFloat (x : Binary64) : Keyed (.float x) := .other nofun
  have hTable : ({} : Checker).check "array<string,array<float>>" (.array [(.text "some",
      .array [(.int 0, .float (.zero false)), (.int 1, .float (.infinity true))]),
      (.text "none", .array [])]) = .accepted := by decide +kernel
  refine (check_accepted_iff_of_equal {} .standard _ ?_ ?_ ?_).mp hTable
  · simp [keyed_array_iff, hFloat]
  · simp [keyed_array_iff, hFloat]
  · decide +kernel

end Checker

end Conformance
