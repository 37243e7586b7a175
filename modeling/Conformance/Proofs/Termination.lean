import Conformance.Checker
import Conformance.Proofs.Brackets
import Mathlib.Data.List.Count

/-! Checks by built-in types come to an end.  A built-in type makes demands one after another, and
what it demands is that the keys and values of an array meet the key and value types of its
argument.  These are shorter than the description and hold fewer opening brackets; so a budget above
the length is never used up, and the verdict does not depend on it. -/

namespace Conformance

namespace Verdict

theorem accepted_ne_malformed (cause : DescriptionError) : accepted ≠ malformed cause := nofun

theorem mismatch_ne_malformed (reason : Mismatch) (cause : DescriptionError) :
    mismatch reason ≠ malformed cause := nofun

theorem require_ne_malformed (condition : Bool) (otherwise : Mismatch) (cause : DescriptionError) :
    require condition otherwise ≠ malformed cause := by
  cases condition with
  | true => exact accepted_ne_malformed cause
  | false => exact mismatch_ne_malformed otherwise cause

end Verdict

open Verdict

/-! ### Inspections and the checks that they ask for -/

namespace Inspection

variable {p q : String → Value → Prop} {i : Inspection}

theorem EachAsk.imp (h : i.EachAsk p) (hpq : ∀ d v, p d v → q d v) : i.EachAsk q := by
  induction h with
  | settled verdict => exact .settled verdict
  | ask here _ ih => exact .ask (hpq _ _ here) ih

theorem EachAsk.andThen {next : Verdict → Inspection} (h : i.EachAsk p)
    (hNext : ∀ verdict, (next verdict).EachAsk p) : (i.andThen next).EachAsk p := by
  induction h with
  | settled verdict => exact hNext verdict
  | ask here _ ih => exact .ask here ih

theorem EachAsk.require {d : String} {v : Value} (wider : Mismatch → Mismatch) (h : p d v)
    (hNext : i.EachAsk p) : (Inspection.require d v wider i).EachAsk p := by
  refine .ask h fun verdict => ?_
  cases verdict with
  | ok _ => exact hNext
  | error rejection => exact .settled _

theorem EachAsk.firstSettled (earlier : Option Mismatch) {is : List Inspection}
    (h : ∀ i ∈ is, i.EachAsk p) : (Inspection.firstSettled earlier is).EachAsk p := by
  induction is generalizing earlier with
  | nil => exact .settled _
  | cons i rest ih =>
    refine (h i List.mem_cons_self).andThen fun verdict => ?_
    rcases verdict with (cause | cause) | accepted
    · exact ih (earlier.or (some cause)) fun j hj => h j (List.mem_cons_of_mem i hj)
    · exact .settled _
    · exact .settled _

/-- The inspection makes one demand after another: the first that is not met settles it, and when
all are met a verdict on the value does. -/
inductive Demands (p : String → Value → Prop) : Inspection → Prop where
  | settled {verdict : Verdict} (sound : ∀ cause, verdict ≠ .malformed cause) :
      Demands p (.settled verdict)
  | require {d : String} {v : Value} {next : Inspection} (wider : Mismatch → Mismatch)
      (here : p d v) (later : Demands p next) : Demands p (.require d v wider next)

theorem Demands.eachAsk (h : i.Demands p) : i.EachAsk p := by
  induction h with
  | settled _ => exact .settled _
  | require wider here _ ih => exact ih.require wider here

theorem EachAsk.run_isSome {answer : String → Value → Option Verdict}
    (h : i.EachAsk fun d v => (answer d v).isSome) : (i.run answer).isSome := by
  induction h with
  | settled verdict => rfl
  | ask here _ ih =>
    obtain ⟨verdict, hVerdict⟩ := Option.isSome_iff_exists.mp here
    rw [run, hVerdict]
    exact ih verdict

theorem EachAsk.run_eq_resolve {answer : String → Value → Option Verdict}
    {total : String → Value → Verdict} (h : i.EachAsk fun d v => answer d v = some (total d v)) :
    i.run answer = some (i.resolve total) := by
  induction h with
  | settled verdict => rfl
  | ask here _ ih =>
    rw [run, here]
    exact ih _

theorem run_mono {answer more : String → Value → Option Verdict}
    (h : ∀ d v verdict, answer d v = some verdict → more d v = some verdict) {verdict : Verdict}
    (hRun : i.run answer = some verdict) : i.run more = some verdict := by
  induction i with
  | settled _ => exact hRun
  | ask d v next ih =>
    rw [run] at hRun ⊢
    cases hAnswer : answer d v with
    | none =>
      rw [hAnswer] at hRun
      exact absurd hRun (by simp)
    | some first =>
      rw [hAnswer] at hRun
      rw [h d v first hAnswer]
      exact ih first hRun

end Inspection

open Inspection

/-! ### What an inspection can be -/

namespace Checker

variable {c : Checker} {d name : String} {types : List ValueType}

theorem inspect_of_deep (h : c.policy.maxDepth < Description.nestingDepth d) (v : Value) :
    c.inspect d v = .settled (.malformed (.tooDeep d c.policy.maxDepth)) := if_pos h

theorem inspect_of_nameless (hDepth : Description.nestingDepth d ≤ c.policy.maxDepth)
    {cause : DescriptionError} (hName : c.grammar.outerName d = .error cause) (v : Value) :
    c.inspect d v = .settled (.malformed cause) := by
  rw [inspect, if_neg (Nat.not_lt.mpr hDepth), hName]

theorem inspect_of_not_found (hDepth : Description.nestingDepth d ≤ c.policy.maxDepth)
    (hName : c.grammar.outerName d = .ok name) (hNone : c.catalogue.find? name = none)
    (v : Value) :
    c.inspect d v = .settled (judgeInstance name (c.grammar.argument d) v) := by
  rw [inspect, if_neg (Nat.not_lt.mpr hDepth), hName]
  simp only [inspectNamed, hNone]

theorem inspect_of_found (hDepth : Description.nestingDepth d ≤ c.policy.maxDepth)
    (hName : c.grammar.outerName d = .ok name) (hTypes : c.catalogue.find? name = some types)
    (v : Value) :
    c.inspect d v =
      .firstSettled none (types.map fun t => t.inspect c.grammar (c.grammar.argument d) v) := by
  rw [inspect, if_neg (Nat.not_lt.mpr hDepth), hName]
  simp only [inspectNamed, hTypes]

/-- What a checker asks for, the types that it finds ask for. -/
theorem eachAsk_inspect_of_types {p : String → Value → Prop} {v : Value}
    (h : ∀ name types, c.catalogue.find? name = some types →
      ∀ t ∈ types, (t.inspect c.grammar (c.grammar.argument d) v).EachAsk p) :
    (c.inspect d v).EachAsk p := by
  rcases Nat.lt_or_ge c.policy.maxDepth (Description.nestingDepth d) with hDeep | hDepth
  · rw [inspect_of_deep hDeep]
    exact .settled _
  · cases hName : c.grammar.outerName d with
    | error cause =>
      rw [inspect_of_nameless hDepth hName]
      exact .settled _
    | ok name =>
      cases hTypes : c.catalogue.find? name with
      | none =>
        rw [inspect_of_not_found hDepth hName hTypes]
        exact .settled _
      | some types =>
        rw [inspect_of_found hDepth hName hTypes]
        refine EachAsk.firstSettled none fun i hi => ?_
        obtain ⟨t, ht, rfl⟩ := List.mem_map.mp hi
        exact h name types hTypes t ht

end Checker

/-! ### Budgets -/

namespace Checker

variable {c : Checker} {d : String} {v : Value}

theorem checkWithin_mono {n m : Nat} (h : n ≤ m) {verdict : Verdict}
    (hCheck : c.checkWithin n d v = some verdict) : c.checkWithin m d v = some verdict := by
  induction n generalizing m d v verdict with
  | zero => exact absurd hCheck (by simp [checkWithin])
  | succ n ih =>
    obtain ⟨m, rfl⟩ : ∃ k, m = k + 1 := ⟨m - 1, by omega⟩
    rw [checkWithin] at hCheck ⊢
    exact run_mono (fun _ _ _ hInner => ih (by omega) hInner) hCheck

/-- When the members of a family of descriptions ask only for members of a smaller measure, a budget
above the measure suffices. -/
theorem checkWithin_isSome_of_family {ι : Type} {text : ι → String} {measure : ι → Nat}
    (hAsk : ∀ t v, (c.inspect (text t) v).EachAsk
      fun d _ => ∃ s, d = text s ∧ measure s < measure t)
    {budget : Nat} {t : ι} (h : measure t < budget) (v : Value) :
    (c.checkWithin budget (text t) v).isSome := by
  induction budget generalizing t v with
  | zero => omega
  | succ budget ih =>
    rw [checkWithin]
    apply EachAsk.run_isSome
    refine (hAsk t v).imp ?_
    rintro d' v' ⟨s, rfl, hLess⟩
    exact ih (by omega) v'

/-- When every check asked for has a smaller measure, a budget above the measure suffices. -/
theorem checkWithin_isSome_of_measure (measure : String → Nat)
    (hAsk : ∀ d v, (c.inspect d v).EachAsk fun d' _ => measure d' < measure d) {budget : Nat}
    (h : measure d < budget) (v : Value) : (c.checkWithin budget d v).isSome := by
  have hFamily : ∀ d v, (c.inspect (id d) v).EachAsk fun d' _ =>
      ∃ s, d' = id s ∧ measure s < measure d :=
    fun d v => (hAsk d v).imp fun d' _ hLess => ⟨d', rfl, hLess⟩
  exact checkWithin_isSome_of_family hFamily h v

theorem check_eq_of_checkWithin {n : Nat} (hBudget : n ≤ budget d) {verdict : Verdict}
    (h : c.checkWithin n d v = some verdict) : c.check d v = verdict := by
  rw [check, checkWithin_mono hBudget h]
  rfl

/-- A family of descriptions whose members ask only for members of a smaller measure, where the
budget of each member is above its measure. -/
structure Descends (c : Checker) {ι : Type} (text : ι → String) (measure : ι → Nat) : Prop where
  asks : ∀ t v, (c.inspect (text t) v).EachAsk fun d _ => ∃ s, d = text s ∧ measure s < measure t
  affordable : ∀ t, measure t < budget (text t)

section Descends

variable {ι : Type} {text : ι → String} {measure : ι → Nat}

theorem Descends.checkWithin_eq (h : c.Descends text measure) {t : ι} {n : Nat}
    (hn : measure t < n) (v : Value) : c.checkWithin n (text t) v = some (c.check (text t) v) := by
  obtain ⟨verdict, hVerdict⟩ := Option.isSome_iff_exists.mp
    (checkWithin_isSome_of_family h.asks (Nat.lt_succ_self (measure t)) v)
  rw [check_eq_of_checkWithin (h.affordable t) hVerdict]
  exact checkWithin_mono hn hVerdict

/-- A check is its inspection, with every question answered by a check. -/
theorem Descends.check_eq (h : c.Descends text measure) (t : ι) (v : Value) :
    c.check (text t) v = (c.inspect (text t) v).resolve c.check := by
  have hAnswers : (c.inspect (text t) v).EachAsk fun d' v' =>
      c.checkWithin (measure t) d' v' = some (c.check d' v') := by
    refine (h.asks t v).imp ?_
    rintro d' v' ⟨s, rfl, hLess⟩
    exact h.checkWithin_eq hLess v'
  have hCheck := h.checkWithin_eq (Nat.lt_succ_self (measure t)) v
  rw [checkWithin, hAnswers.run_eq_resolve] at hCheck
  exact (Option.some.inj hCheck).symm

end Descends

end Checker

/-! ### What built-in types ask for -/

/-- The checks that an argument and a value give rise to: of each key against the key type, unless
it is empty, and of the value of each entry against the value type. -/
inductive Asks (argument : String) (v : Value) : String → Value → Prop where
  | key {entries : List (Key × Value)} {e : Key × Value} (array : v = .array entries)
      (mem : e ∈ entries) (given : argument ≠ "")
      (typed : (Description.keyValue argument).1 ≠ "") :
      Asks argument v (Description.keyValue argument).1 (.ofKey e.1)
  | value {entries : List (Key × Value)} {e : Key × Value} (array : v = .array entries)
      (mem : e ∈ entries) (given : argument ≠ "") :
      Asks argument v (Description.keyValue argument).2 e.2

namespace Builtin

theorem demands_inspectEntries {p : String → Value → Prop} {keyType valueType : String}
    {entries : List (Key × Value)} (position : Nat)
    (hKey : keyType ≠ "" → ∀ e ∈ entries, p keyType (.ofKey e.1))
    (hValue : ∀ e ∈ entries, p valueType e.2) :
    (inspectEntries keyType valueType position entries).Demands p := by
  induction entries generalizing position with
  | nil => exact .settled accepted_ne_malformed
  | cons e rest ih =>
    have hRest := ih (position + 1)
      (fun hTyped e he => hKey hTyped e (List.mem_cons_of_mem _ he))
      (fun e he => hValue e (List.mem_cons_of_mem _ he))
    have hEntry := Demands.require (.inValue position e.1) (hValue e List.mem_cons_self) hRest
    rw [inspectEntries]
    split
    · exact hEntry
    · next hTyped =>
      have hTyped : keyType ≠ "" := fun hEmpty => hTyped (by simp [hEmpty])
      exact .require (.inKey position) (hKey hTyped e List.mem_cons_self) hEntry

/-- Whatever the grammar takes the key and value types of an argument to be, an array demands of its
keys and values that they meet these, and the other built-in types demand nothing. -/
theorem demands_inspect_parts (b : Builtin) (g : Grammar) {p : String → Value → Prop}
    {argument : String} {v : Value}
    (h : ∀ entries, v = .array entries → argument ≠ "" → ∀ e ∈ entries,
      ((g.keyValue argument).1 ≠ "" → p (g.keyValue argument).1 (.ofKey e.1)) ∧
        p (g.keyValue argument).2 e.2) :
    (b.inspect g argument v).Demands p := by
  cases b with
  | array =>
    cases v with
    | array entries =>
      rw [inspect, inspectArray]
      split
      · exact .settled accepted_ne_malformed
      · next hGiven =>
        have hGiven : argument ≠ "" := fun hEmpty => hGiven (by simp [hEmpty])
        have hParts := h entries rfl hGiven
        exact demands_inspectEntries 0 (fun hTyped e he => (hParts e he).1 hTyped)
          fun e he => (hParts e he).2
    | _ => exact .settled (mismatch_ne_malformed _)
  | any => exact .settled accepted_ne_malformed
  | number => exact .settled (require_ne_malformed _ _)
  | numeric => cases v <;> exact .settled (require_ne_malformed _ _)
  | resource =>
    cases v with
    | resource kind id => exact .settled (require_ne_malformed _ _)
    | _ => exact .settled (mismatch_ne_malformed _)
  | bool | callable | float | integer | object | string =>
    cases v <;> exact .settled (by simp [accepted, mismatch, malformed])

theorem demands_inspect (b : Builtin) (argument : String) (v : Value) :
    (b.inspect .standard argument v).Demands (Asks argument v) := by
  refine b.demands_inspect_parts .standard fun entries hArray hGiven e he => ⟨fun hTyped => ?_, ?_⟩
  · exact .key hArray he hGiven hTyped
  · exact .value hArray he hGiven

end Builtin

namespace Catalogue

theorem find?_addAs_self (c : Catalogue) (name : String) (t : ValueType) :
    (c.addAs name t).find? name = some ((c.find? name).getD [] ++ [t]) :=
  Entries.get?_update_self name _ c.entries

theorem find?_addAs_of_ne {c : Catalogue} {name other : String} (h : other ≠ name) (t : ValueType) :
    (c.addAs name t).find? other = c.find? other :=
  Entries.get?_update_of_ne _ c.entries h

end Catalogue

namespace Checker

/-- A checker whose types are all built in, under whatever names, and whose grammar is the
standard one. -/
structure OfBuiltins (c : Checker) : Prop where
  types : ∀ {name : String} {types : List ValueType}, c.catalogue.find? name = some types →
    ∀ t ∈ types, ∃ b : Builtin, t = b.toType
  grammar : c.grammar = .standard

variable {c : Checker}

theorem OfBuiltins.addAs (hc : c.OfBuiltins) (name : String) (b : Builtin) :
    (c.addAs name b.toType).OfBuiltins where
  types := by
    intro other types h t ht
    by_cases hName : other = name
    · subst hName
      rw [Checker.addAs, Catalogue.find?_addAs_self] at h
      cases h
      rcases List.mem_append.mp ht with hOld | hNew
      · cases hFound : c.catalogue.find? other with
        | none => simp [hFound] at hOld
        | some earlier =>
          rw [hFound] at hOld
          exact hc.types hFound t hOld
      · exact ⟨b, List.mem_singleton.mp hNew⟩
    · rw [Checker.addAs, Catalogue.find?_addAs_of_ne hName] at h
      exact hc.types h t ht
  grammar := hc.grammar

theorem OfBuiltins.eachAsk_inspect (hc : c.OfBuiltins) (d : String) (v : Value) :
    (c.inspect d v).EachAsk (Asks (Description.argument d) v) := by
  refine eachAsk_inspect_of_types fun name types hTypes t ht => ?_
  obtain ⟨b, rfl⟩ := hc.types hTypes t ht
  rw [hc.grammar]
  exact (b.demands_inspect _ v).eachAsk

end Checker

/-! ### What is asked for is smaller -/

namespace Asks

variable {d d' : String} {v v' : Value}

theorem argument_ne (h : Asks (Description.argument d) v d' v') : Description.argument d ≠ "" := by
  cases h with
  | key _ _ given _ => exact given
  | value _ _ given => exact given

theorem infix_argument (h : Asks (Description.argument d) v d' v') :
    d'.toList <:+: (Description.argument d).toList := by
  cases h with
  | key => exact (Description.keyValue_infix _).1
  | value => exact (Description.keyValue_infix _).2

theorem length_lt (h : Asks (Description.argument d) v d' v') : d'.length < d.length :=
  Nat.lt_of_le_of_lt (Description.length_le_of_infix h.infix_argument)
    (Description.length_argument_lt h.argument_ne)

theorem count_lt (h : Asks (Description.argument d) v d' v') :
    d'.toList.count '<' < d.toList.count '<' := by
  have hPart := h.infix_argument.sublist.count_le '<'
  have hWhole := congrArg (List.count '<') (Description.toList_eq_of_argument_ne h.argument_ne)
  rw [List.count_append, List.count_cons_self, List.count_append] at hWhole
  omega

end Asks

/-! ### The verdict of a check -/

namespace Checker

variable {c : Checker} {d : String}

theorem OfBuiltins.descends (hc : c.OfBuiltins) : c.Descends id String.length where
  asks d v := (hc.eachAsk_inspect d v).imp fun d' _ hAsks => ⟨d', rfl, hAsks.length_lt⟩
  affordable d := by
    unfold budget
    exact Nat.lt_of_lt_of_le (Nat.lt_succ_self _) (Nat.le_add_right _ _)

theorem OfBuiltins.checkWithin_eq (hc : c.OfBuiltins) {n : Nat} (h : d.length < n) (v : Value) :
    c.checkWithin n d v = some (c.check d v) := hc.descends.checkWithin_eq (t := d) h v

/-- A budget that suffices gives the verdict of the check. -/
theorem OfBuiltins.check_eq_of_checkWithin (hc : c.OfBuiltins) {n : Nat} {v : Value}
    {verdict : Verdict} (h : c.checkWithin n d v = some verdict) : c.check d v = verdict := by
  have hMore := checkWithin_mono (Nat.le_max_left n (d.length + 1)) h
  rw [hc.checkWithin_eq (Nat.le_max_right n (d.length + 1)) v] at hMore
  exact Option.some.inj hMore

theorem OfBuiltins.check_eq (hc : c.OfBuiltins) (d : String) (v : Value) :
    c.check d v = (c.inspect d v).resolve c.check := hc.descends.check_eq d v

end Checker

end Conformance
