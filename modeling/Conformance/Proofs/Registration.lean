import Conformance.Proofs.Termination

/-! Catalogues as logs.  A registration adds a type under its own names or under one name, and the
log of a run of registrations lists each name with the type added under it.  `Records` says that a
catalogue holds what its log lists and nothing else: it is kept by every registration, so a
catalogue that registrations lead to never has a name without types. -/

namespace Conformance

/-- A registration of a type. -/
inductive Registration where
  /-- Under the type's own name and its further names. -/
  | own (t : ValueType)
  /-- Under one name, whatever the names of the type. -/
  | under (name : String) (t : ValueType)

/-- The names that a registration adds, in order, each with the type. -/
def Registration.log : Registration → List (String × ValueType)
  | own t => (t.name, t) :: t.aliases.map fun name => (name, t)
  | under name t => [(name, t)]

/-- The log of the built-in types. -/
def builtinLog : List (String × ValueType) :=
  Builtin.all.flatMap fun b => (Registration.own b.toType).log

/-- The types logged under a name, in the order of the log. -/
def typesLogged (name : String) (log : List (String × ValueType)) : List ValueType :=
  (log.filter fun entry => entry.1 = name).map Prod.snd

section Log

variable {name : String} {log : List (String × ValueType)}

theorem typesLogged_append (name : String) (log more : List (String × ValueType)) :
    typesLogged name (log ++ more) = typesLogged name log ++ typesLogged name more := by
  simp [typesLogged]

theorem typesLogged_ne_nil (h : name ∈ log.map Prod.fst) : typesLogged name log ≠ [] := by
  obtain ⟨entry, hEntry, rfl⟩ := List.mem_map.mp h
  have hMem : entry.2 ∈ typesLogged entry.1 log :=
    List.mem_map_of_mem (List.mem_filter.mpr ⟨hEntry, decide_eq_true rfl⟩)
  exact List.ne_nil_of_mem hMem

theorem typesLogged_of_not_mem (h : name ∉ log.map Prod.fst) : typesLogged name log = [] := by
  rw [typesLogged, List.map_eq_nil_iff, List.filter_eq_nil_iff]
  intro entry hEntry hName
  exact h (of_decide_eq_true hName ▸ List.mem_map_of_mem hEntry)

theorem eraseDups_concat (names : List String) (name : String) :
    (names ++ [name]).eraseDups =
      if name ∈ names then names.eraseDups else names.eraseDups ++ [name] := by
  rw [List.eraseDups_append]
  by_cases h : name ∈ names <;> simp [List.removeAll, List.eraseDups_cons, h]

end Log

namespace Catalogue

variable {c : Catalogue} {log : List (String × ValueType)}

def register (c : Catalogue) : Registration → Catalogue
  | .own t => c.add t
  | .under name t => c.addAs name t

/-- The catalogue after a run of registrations. -/
def registerAll (c : Catalogue) (registrations : List Registration) : Catalogue :=
  registrations.foldl register c

theorem names_addAs (c : Catalogue) (name : String) (t : ValueType) :
    (c.addAs name t).names = if name ∈ c.names then c.names else c.names ++ [name] :=
  Entries.keys_update name _ c.entries

/-- A catalogue holds just what a log lists: under each name the types logged under it, and the
names in the order in which they first occur. -/
structure Records (c : Catalogue) (log : List (String × ValueType)) : Prop where
  found : ∀ name, c.find? name =
    if name ∈ log.map Prod.fst then some (typesLogged name log) else none
  names : c.names = (log.map Prod.fst).eraseDups

namespace Records

theorem mem_names_iff (h : c.Records log) {name : String} :
    name ∈ c.names ↔ (c.find? name).isSome := by
  rw [h.names, List.mem_eraseDups, h.found]
  split
  · next hMem => exact iff_of_true hMem rfl
  · next hMem => exact iff_of_false hMem (by simp)

theorem types_ne_nil (h : c.Records log) {name : String} {types : List ValueType}
    (hFound : c.find? name = some types) : types ≠ [] := by
  rw [h.found] at hFound
  split at hFound
  · next hMem =>
    cases hFound
    exact typesLogged_ne_nil hMem
  · cases hFound

theorem addAs (h : c.Records log) (name : String) (t : ValueType) :
    (c.addAs name t).Records (log ++ [(name, t)]) where
  found := by
    intro other
    rw [typesLogged_append, List.map_append]
    by_cases hName : other = name
    · subst hName
      have hNew : typesLogged other [(other, t)] = [t] := by simp [typesLogged]
      have hOld : (c.find? other).getD [] = typesLogged other log := by
        rw [h.found]
        split
        · rfl
        · next hMem => exact (typesLogged_of_not_mem hMem).symm
      rw [find?_addAs_self, hOld, hNew, if_pos (by simp)]
    · have hNew : typesLogged other [(name, t)] = [] :=
        typesLogged_of_not_mem (by simpa using hName)
      have hMem : other ∈ log.map Prod.fst ++ [(name, t)].map Prod.fst ↔
          other ∈ log.map Prod.fst := by
        simp [hName]
      rw [find?_addAs_of_ne hName, h.found, hNew, List.append_nil]
      simp only [hMem]
  names := by
    rw [names_addAs, h.names, List.map_append, List.map_singleton, eraseDups_concat]
    simp only [List.mem_eraseDups]

/-- A run of additions adds its log. -/
theorem foldl_addAs (h : c.Records log) (more : List (String × ValueType)) :
    (more.foldl (fun c entry => c.addAs entry.1 entry.2) c).Records (log ++ more) := by
  induction more generalizing c log with
  | nil => rwa [List.append_nil]
  | cons entry rest ih =>
    rw [List.foldl_cons, List.append_cons]
    exact ih (h.addAs entry.1 entry.2)

theorem register (h : c.Records log) (r : Registration) :
    (c.register r).Records (log ++ r.log) := by
  cases r with
  | own t =>
    have hFold := h.foldl_addAs (Registration.own t).log
    rw [Registration.log, List.foldl_cons, List.foldl_map] at hFold
    exact hFold
  | under name t => exact h.addAs name t

theorem registerAll (h : c.Records log) (registrations : List Registration) :
    (c.registerAll registrations).Records (log ++ registrations.flatMap Registration.log) := by
  induction registrations generalizing c log with
  | nil => rwa [List.flatMap_nil, List.append_nil]
  | cons r rest ih =>
    rw [Catalogue.registerAll, List.foldl_cons, List.flatMap_cons, ← List.append_assoc]
    exact ih (h.register r)

end Records

theorem records_empty : empty.Records [] where
  found := fun _ => rfl
  names := rfl

theorem builtins_eq_registerAll :
    builtins = empty.registerAll (Builtin.all.map fun b => .own b.toType) := rfl

theorem records_builtins : builtins.Records builtinLog := by
  have h := records_empty.registerAll (Builtin.all.map fun b => .own b.toType)
  rw [← builtins_eq_registerAll, List.nil_append, List.flatMap_map] at h
  exact h

/-- A catalogue that registrations lead to. -/
def Registered (c : Catalogue) : Prop := ∃ registrations, c = empty.registerAll registrations

theorem Registered.exists_records (h : c.Registered) : ∃ log, c.Records log := by
  obtain ⟨registrations, rfl⟩ := h
  exact ⟨_, records_empty.registerAll registrations⟩

/-- After any run of registrations a catalogue holds just what was logged: nothing where a name was
not logged and otherwise the types logged under it, in order and with repetitions, and each name
once, where it first occurs.  A catalogue that starts with the built-in types has them in front of
its log. -/
theorem registerAll_records (registrations : List Registration) :
    (empty.registerAll registrations).Records (registrations.flatMap Registration.log) ∧
    (builtins.registerAll registrations).Records
      (builtinLog ++ registrations.flatMap Registration.log) :=
  ⟨records_empty.registerAll registrations, records_builtins.registerAll registrations⟩

/-- A name that comes again keeps its place, and a type logged twice under it is found twice. -/
example (t : ValueType) :
    let c := empty.registerAll [.under "b" t, .own ⟨"a", ["a", "b"], t.inspect⟩, .under "c" t]
    c.names = ["b", "a", "c"] ∧ (c.find? "a").map List.length = some 2 := ⟨rfl, rfl⟩

end Catalogue

end Conformance
