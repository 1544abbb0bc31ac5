/-
# Catalogs made from catalogs

`relabel` gives new texts to what is selected by identity, and `restrict`
keeps only what is selected by identity.  Both build the catalog anew from
the changed definition, so the result is consistent or a fault is named.
-/
import Reckoner.Catalog.Consistency

namespace Reckoner

/-- New texts, keyed by the names of identities. -/
structure Labels where
  operators : List (String × String) := []
  functions : List (String × String) := []
  constants : List (String × String) := []
deriving Repr

/-- The names of the identities to keep; a group that is absent is kept whole. -/
structure Selection where
  operators : Option (List String) := none
  functions : Option (List String) := none
  constants : Option (List String) := none
deriving Repr

namespace Definition

def relabel (d : Definition) (labels : Labels) : Definition :=
  { d with
    operators := d.operators.map fun op =>
      { op with symbol := (labels.operators.lookup op.id.name).getD op.symbol }
    functions := d.functions.map fun f =>
      { f with name := (labels.functions.lookup f.id.name).getD f.name }
    constants := d.constants.map fun c =>
      { c with name := (labels.constants.lookup c.id.name).getD c.name } }

/-- Whether a name is kept by a group of a selection. -/
def keeps (names : Option (List String)) (name : String) : Bool :=
  match names with
  | none => true
  | some kept => kept.contains name

/-- The definition with only what is selected. -/
def restrict (d : Definition) (selection : Selection) : Definition :=
  { d with
    operators := d.operators.filter fun op => keeps selection.operators op.id.name
    functions := d.functions.filter fun f => keeps selection.functions f.id.name
    constants := d.constants.filter fun c => keeps selection.constants c.id.name }

end Definition

namespace Catalog

/-- The catalog with new texts, or the first fault among them. -/
def relabel (c : Catalog) (labels : Labels) : Except Fault Catalog :=
  ofDefinition (c.toDefinition.relabel labels)

/-- The catalog with only what is selected. -/
def restrict (c : Catalog) (selection : Selection) : Except Fault Catalog :=
  ofDefinition (c.toDefinition.restrict selection)

end Catalog

end Reckoner
