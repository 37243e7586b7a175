import Conformance.Entries
import Conformance.Text.Quoted
import Conformance.ValueType.Builtin

/-! Catalogues of types.  Several types may share a name; they stand in the order in which they were
added, and the names in the order in which each was first used. -/

namespace Conformance

/-- A catalogue of types by name. -/
structure Catalogue where
  entries : List (String × List ValueType)

namespace Catalogue

def empty : Catalogue := ⟨[]⟩

def addAs (c : Catalogue) (name : String) (t : ValueType) : Catalogue :=
  ⟨Entries.update name (fun types => types.getD [] ++ [t]) c.entries⟩

def add (c : Catalogue) (t : ValueType) : Catalogue :=
  t.names.foldl (fun c name => c.addAs name t) c

def builtins : Catalogue := Builtin.all.foldl (fun c b => c.add b.toType) empty

def find? (c : Catalogue) (name : String) : Option (List ValueType) := Entries.get? name c.entries

def names (c : Catalogue) : List String := c.entries.map Prod.fst

/-- The names in quotes, each with the number of its types. -/
def summary (c : Catalogue) : String :=
  let items := c.entries.map fun e => s!"{Text.quoted e.1}: {e.2.length}"
  "\x7b" ++ ", ".intercalate items ++ "\x7d"

end Catalogue

end Conformance
