/-! Maps that keep the order of insertion, as lists of pairs.  A key stands in one pair; writing it
again keeps its place and replaces its value. -/

namespace Conformance.Entries

variable {α β : Type} [DecidableEq α]

/-- The value of a key: that of the first pair which has it. -/
def get? (key : α) : List (α × β) → Option β
  | [] => none
  | (k, v) :: rest => if k = key then some v else get? key rest

/-- Replaces the value of a key by what `f` makes of it.  A key without a value is appended. -/
def update (key : α) (f : Option β → β) : List (α × β) → List (α × β)
  | [] => [(key, f none)]
  | (k, v) :: rest => if k = key then (k, f (some v)) :: rest else (k, v) :: update key f rest

def put (key : α) (value : β) (entries : List (α × β)) : List (α × β) :=
  update key (fun _ => value) entries

/-- The map that pairs make when they are written one after another. -/
def ofPairs (pairs : List (α × β)) : List (α × β) :=
  pairs.foldl (fun entries p => put p.1 p.2 entries) []

theorem get?_update_self (key : α) (f : Option β → β) (entries : List (α × β)) :
    get? key (update key f entries) = some (f (get? key entries)) := by
  induction entries with
  | nil => simp [update, get?]
  | cons p rest ih =>
    obtain ⟨k, v⟩ := p
    by_cases h : k = key <;> simp [update, get?, h, ih]

theorem get?_update_of_ne {key other : α} (f : Option β → β) (entries : List (α × β))
    (h : other ≠ key) : get? other (update key f entries) = get? other entries := by
  induction entries with
  | nil => simp [update, get?, h.symm]
  | cons p rest ih =>
    obtain ⟨k, v⟩ := p
    by_cases hk : k = key
    · subst hk
      simp [update, get?, h.symm]
    · simp [update, get?, hk, ih]

theorem mem_of_get? {key : α} {value : β} {entries : List (α × β)}
    (h : get? key entries = some value) : (key, value) ∈ entries := by
  induction entries with
  | nil => cases h
  | cons p rest ih =>
    obtain ⟨k, v⟩ := p
    by_cases hk : k = key
    · simp_all [get?]
    · rw [get?, if_neg hk] at h
      exact List.mem_cons_of_mem _ (ih h)

theorem get?_of_mem {key : α} {value : β} {entries : List (α × β)}
    (hNodup : (entries.map Prod.fst).Nodup) (h : (key, value) ∈ entries) :
    get? key entries = some value := by
  induction entries with
  | nil => exact absurd h List.not_mem_nil
  | cons p rest ih =>
    obtain ⟨k, v⟩ := p
    rw [List.map_cons, List.nodup_cons] at hNodup
    rcases List.mem_cons.mp h with hFirst | hRest
    · cases hFirst
      rw [get?, if_pos rfl]
    · have hKey : key ∈ rest.map Prod.fst := List.mem_map_of_mem hRest
      have hk : k ≠ key := fun hEq => hNodup.1 (hEq ▸ hKey)
      rw [get?, if_neg hk, ih hNodup.2 hRest]

/-- A new key goes to the end, a known one stays where it is. -/
theorem keys_update (key : α) (f : Option β → β) (entries : List (α × β)) :
    (update key f entries).map Prod.fst =
      if key ∈ entries.map Prod.fst then entries.map Prod.fst
      else entries.map Prod.fst ++ [key] := by
  induction entries with
  | nil => simp [update]
  | cons p rest ih =>
    obtain ⟨k, v⟩ := p
    by_cases h : k = key
    · simp [update, h]
    · have h' : key ≠ k := fun e => h e.symm
      by_cases hm : key ∈ rest.map Prod.fst
      · simp only [update, h, if_false, List.map_cons, ih, hm, if_true, List.mem_cons, or_true]
      · simp only [update, h, if_false, List.map_cons, ih, hm, List.mem_cons, h', or_self,
          List.cons_append]

theorem put_of_not_mem {key : α} {value : β} {entries : List (α × β)}
    (h : key ∉ entries.map Prod.fst) : put key value entries = entries ++ [(key, value)] := by
  induction entries with
  | nil => rfl
  | cons p rest ih =>
    obtain ⟨k, v⟩ := p
    rw [List.map_cons, List.mem_cons, not_or] at h
    have hRest := ih h.2
    rw [put] at hRest ⊢
    rw [update, if_neg (Ne.symm h.1), hRest, List.cons_append]

/-- Pairs with distinct keys are a map already. -/
theorem ofPairs_of_nodup {pairs : List (α × β)} (h : (pairs.map Prod.fst).Nodup) :
    ofPairs pairs = pairs := by
  have hFold (entries : List (α × β)) (hNodup : ((entries ++ pairs).map Prod.fst).Nodup) :
      pairs.foldl (fun entries p => put p.1 p.2 entries) entries = entries ++ pairs := by
    clear h
    induction pairs generalizing entries with
    | nil => exact (List.append_nil entries).symm
    | cons p rest ih =>
      have hKey : p.1 ∉ entries.map Prod.fst := by
        rw [List.map_append, List.map_cons, List.nodup_append] at hNodup
        exact fun hMem => hNodup.2.2 p.1 hMem p.1 List.mem_cons_self rfl
      rw [List.foldl_cons, put_of_not_mem hKey, ih, List.append_assoc, List.singleton_append]
      rwa [List.append_assoc, List.singleton_append]
  exact hFold [] h

end Conformance.Entries
