import Configurable.Data.Basic
import Configurable.Resolver

/-!
# Values by section

Resolved values as a document would give them: under the qualified name of their module and
their own name, both in ascending order. Of modules that differ in nothing but their version
the values share a section, the later declaration deciding where names are equal.

As data, decimals are texts, so that no reader takes them for doubles; records are mappings
of their fields, and tables lists of their rows.
-/

namespace Configurable

/-- Keys in ascending order with what they stand for. -/
abbrev Sorted (α : Type) := List (String × α)

namespace Sorted

variable {α : Type}

/-- Puts a value under a key; one that is there is changed by `f`. -/
def alter (f : Option α → α) (key : String) : Sorted α → Sorted α
  | [] => [(key, f none)]
  | (k, v) :: es =>
    if key < k then (key, f none) :: (k, v) :: es
    else if key = k then (k, f (some v)) :: es
    else (k, v) :: alter f key es

def get? (s : Sorted α) (key : String) : Option α := Entries.get? s key

end Sorted

abbrev Sections := Sorted (Sorted Value)

def Values.toSections (values : Values) : Sections :=
  values.foldl (fun sections (id, value) =>
    Sorted.alter (fun held => Sorted.alter (fun _ => value) id.name (held.getD []))
      id.module.qualifiedName sections) []

namespace Value

mutual

def toData : Value → Data
  | .int n => .integer n.toInt
  | .byte n => .integer n.toNat
  | .boolean b => .boolean b
  | .float x => .float x
  | .decimal d => .string d.render
  | .string s => .string s
  | .xml text => .string text
  | .array items => .list (itemsToData items)
  | .record ⟨_, fields⟩ => .mapping (fieldsToData fields)
  | .table ⟨_, rows⟩ => .list (rowsToData rows)
  | .map entries => .mapping (fieldsToData entries)

def itemsToData : List Value → List Data
  | [] => []
  | v :: vs => v.toData :: itemsToData vs

def fieldsToData : List (String × Value) → List (String × Data)
  | [] => []
  | (name, v) :: fs => (name, v.toData) :: fieldsToData fs

def rowsToData : List (RecordOf Value) → List Data
  | [] => []
  | ⟨_, fields⟩ :: rows => .mapping (fieldsToData fields) :: rowsToData rows

end

end Value

def Sections.toData (sections : Sections) : Data :=
  .mapping (sections.map fun (name, held) => (name, .mapping (Value.fieldsToData held)))

end Configurable
